import Reconciliation.Proofs.Dispatch.Writes

/-!
A dispatch among others who write on the cluster. Between any two of its exchanges there may be any
writes of others, those of its reconciler and of its passes included. Only a write of its own makes
an exchange of the dispatch change the cluster.
-/
namespace Reconciliation

open Cluster

/-- What happens while a dispatch is under way: a write of somebody else on the cluster, or an
exchange of the dispatch. -/
inductive Item (I : Interface) where
  | other (w : ClusterWrite)
  | own (x : Exchange (dispatching I))

namespace Item
variable {I : Interface}

def other? : Item I → Option ClusterWrite
  | other w => some w
  | own _ => none

def exchange? : Item I → Option (Exchange (dispatching I))
  | other _ => none
  | own x => some x

def write? : Item I → Option ClusterWrite
  | other w => some w
  | own x => x.call.write?

/-- A write of the dispatch itself. -/
def isOwnWrite : Item I → Bool
  | other _ => false
  | own x => x.call.write?.isSome

end Item

/-- The answers that a cluster gives to a dispatch. A pass and the reconciler may answer anything. -/
def DispatchCall.Truthful {I : Interface} (s : Cluster) : (c : DispatchCall I) → c.Reply → Prop
  | primary (.observe id), found => found = s.get? id
  | primary (.patch id v p), r => r = (s.patch id v p).1
  | _, _ => True

namespace Dispatcher
variable {I : Interface}

/-- Writes of others only. -/
def byOthers (ws : List ClusterWrite) : List (Item I) := ws.map .other

/-- The writes of others. -/
def others (items : List (Item I)) : List ClusterWrite := items.filterMap Item.other?

/-- All writes, those of the dispatch included. -/
def writes (items : List (Item I)) : List ClusterWrite := items.filterMap Item.write?

/-- The exchanges of the dispatch. -/
def exchanges (items : List (Item I)) : Past I := items.filterMap Item.exchange?

/-- The cluster after a history and what has happened since. -/
def clusterAt (before : List ClusterWrite) (items : List (Item I)) : Cluster :=
  .ofHistory (before ++ writes items)

/-- What may happen while a dispatch is under way, from some history of the cluster on, and what is
left of the dispatch then. -/
inductive Interleaved (before : List ClusterWrite) (t : Dispatching I DispatchSummary) :
    List (Item I) → Dispatching I DispatchSummary → Prop
  | start : Interleaved before t [] t
  | other (items : List (Item I)) (rest : Dispatching I DispatchSummary) (w : ClusterWrite)
      (h : Interleaved before t items rest) : Interleaved before t (items ++ [.other w]) rest
  | own (items : List (Item I)) (c : DispatchCall I)
      (k : c.Reply → Dispatching I DispatchSummary) (r : c.Reply)
      (h : Interleaved before t items (.call c k)) (hr : c.Truthful (clusterAt before items) r) :
      Interleaved before t (items ++ [.own ⟨c, r⟩]) (k r)

section Items

theorem exchanges_append (items more : List (Item I)) :
    exchanges (items ++ more) = exchanges items ++ exchanges more :=
  List.filterMap_append

theorem writes_append (items more : List (Item I)) :
    writes (items ++ more) = writes items ++ writes more :=
  List.filterMap_append

theorem writes_own (x : Exchange (dispatching I)) (items : List (Item I))
    (hx : x.call.write? = none) : writes (.own x :: items) = writes items := by
  have hnone : (Item.own x).write? = none := hx
  exact List.filterMap_cons_none hnone

theorem writes_byOthers (ws : List ClusterWrite) : writes (byOthers (I := I) ws) = ws := by
  induction ws with
  | nil => rfl
  | cons w rest ih => exact congrArg (w :: ·) ih

/-- Only a write of its own makes an exchange of a dispatch change the cluster. -/
theorem clusterAt_concat_own (before : List ClusterWrite) (items : List (Item I))
    (x : Exchange (dispatching I)) (hx : x.call.write? = none) :
    clusterAt before (items ++ [.own x]) = clusterAt before items := by
  unfold clusterAt
  rw [writes_append, writes_own x [] hx]
  exact congrArg (fun ws => ofHistory (before ++ ws)) (List.append_nil _)

theorem clusterAt_concat_written (before : List ClusterWrite) (items : List (Item I))
    (id : ResourceId) (v : Version) (p : ObjectPatch) (r : Except Error ManagedObject) :
    clusterAt before (items ++ [.own (written id v p r)]) =
      ((clusterAt before items).patch id v p).2 := by
  unfold clusterAt
  rw [writes_append, ← List.append_assoc]
  exact ofHistory_concat _ (.patch id v p)

/-- As long as the dispatch itself has written nothing, all writes are those of others. -/
theorem others_eq_writes (items : List (Item I))
    (h : ∀ x ∈ exchanges items, x.call.write? = none) : others items = writes items := by
  induction items with
  | nil => rfl
  | cons item rest ih =>
    cases item with
    | other w => exact congrArg (w :: ·) (ih h)
    | own x =>
      rw [writes_own x rest (h x List.mem_cons_self)]
      exact ih fun y hy => h y (List.mem_cons_of_mem x hy)

theorem mem_exchanges (items : List (Item I)) (x : Exchange (dispatching I)) :
    x ∈ exchanges items ↔ .own x ∈ items := by
  constructor
  · intro hx
    obtain ⟨item, hitem, heq⟩ := List.mem_filterMap.mp hx
    cases item with
    | other w => cases heq
    | own y => exact Option.some.inj heq ▸ hitem
  · exact fun hx => List.mem_filterMap.mpr ⟨.own x, hx, rfl⟩

theorem exchanges_byOthers (ws : List ClusterWrite) : exchanges (byOthers (I := I) ws) = [] := by
  induction ws with
  | nil => rfl
  | cons w rest ih => exact ih

theorem countP_isOwnWrite_eq_zero (items : List (Item I))
    (h : ∀ x ∈ exchanges items, x.call.write? = none) : items.countP Item.isOwnWrite = 0 := by
  refine List.countP_eq_zero.mpr fun item hitem hwrite => ?_
  cases item with
  | other w => cases hwrite
  | own x =>
    change x.call.write?.isSome = true at hwrite
    rw [h x ((mem_exchanges items x).mpr hitem)] at hwrite
    cases hwrite

/-- Where only the last exchange can be a write of the dispatch. -/
theorem countP_isOwnWrite_last (earlier : List (Item I)) (last : Exchange (dispatching I))
    (since : List ClusterWrite) (h : ∀ x ∈ exchanges earlier, x.call.write? = none) :
    (earlier ++ .own last :: byOthers since).countP Item.isOwnWrite =
      last.call.write?.isSome.toNat := by
  have hsince : ∀ x ∈ exchanges (byOthers (I := I) since), x.call.write? = none := by
    rw [exchanges_byOthers]
    exact fun _ hx => by cases hx
  rw [List.countP_append, List.countP_cons, countP_isOwnWrite_eq_zero earlier h,
    countP_isOwnWrite_eq_zero _ hsince, Nat.zero_add, Nat.zero_add]
  change (if last.call.write?.isSome = true then 1 else 0) = _
  cases last.call.write?.isSome <;> rfl

/-- Before the first exchange there are writes of others only. -/
theorem split_first (items : List (Item I)) (x : Exchange (dispatching I)) (past : Past I)
    (h : exchanges items = x :: past) :
    ∃ (start : List ClusterWrite) (between : List (Item I)),
      items = byOthers start ++ .own x :: between ∧ exchanges between = past := by
  induction items with
  | nil => cases h
  | cons item rest ih =>
    cases item with
    | other w =>
      obtain ⟨start, between, rfl, hpast⟩ := ih h
      exact ⟨w :: start, between, rfl, hpast⟩
    | own y =>
      obtain ⟨rfl, hpast⟩ := List.cons.inj h
      exact ⟨[], rest, rfl, hpast⟩

/-- After the last exchange there are writes of others only. -/
theorem split_last (items : List (Item I)) (past : Past I) (x : Exchange (dispatching I))
    (h : exchanges items = past ++ [x]) :
    ∃ (earlier : List (Item I)) (since : List ClusterWrite),
      items = earlier ++ .own x :: byOthers since ∧ exchanges earlier = past := by
  induction items using List.reverseRecOn with
  | nil => cases past <;> cases h
  | append_singleton items item ih =>
    rw [exchanges_append] at h
    cases item with
    | other w =>
      rw [show exchanges [Item.other (I := I) w] = [] from rfl, List.append_nil] at h
      obtain ⟨earlier, since, rfl, hpast⟩ := ih h
      refine ⟨earlier, since ++ [w], ?_, hpast⟩
      rw [List.append_assoc, List.cons_append]
      unfold byOthers
      rw [List.map_append]
      rfl
    | own y =>
      obtain ⟨hpast, hlast⟩ := List.append_inj' h rfl
      obtain rfl : y = x := List.singleton_inj.mp hlast
      exact ⟨items, [], rfl, hpast⟩

end Items

section Histories
variable {before : List ClusterWrite} {t rest : Dispatching I DispatchSummary}
  {items : List (Item I)}

/-- The exchanges among the items are a history of the dispatch. -/
theorem Interleaved.leads (h : Interleaved before t items rest) :
    t.Leads (fun _ _ => True) (exchanges items) rest := by
  induction h with
  | start => exact .start
  | other items rest w _ ih =>
    rw [exchanges_append]
    exact (List.append_nil _).symm ▸ ih
  | own items c k r _ _ ih =>
    rw [exchanges_append]
    exact Action.Leads.answer (I := dispatching I) (exchanges items) c k r ih trivial

theorem Interleaved.append_others (h : Interleaved before t items rest) (ws : List ClusterWrite) :
    Interleaved before t (items ++ byOthers ws) rest := by
  induction ws using List.reverseRecOn with
  | nil => exact (List.append_nil items).symm ▸ h
  | append_singleton ws w ih =>
    have hnext := ih.other _ _ w
    rw [List.append_assoc] at hnext
    unfold byOthers
    rw [List.map_append]
    exact hnext

/-- What happened last. -/
theorem Interleaved.of_concat {item : Item I} (h : Interleaved before t (items ++ [item]) rest) :
    (∃ w, item = .other w ∧ Interleaved before t items rest) ∨
      ∃ c k r, item = .own ⟨c, r⟩ ∧ Interleaved before t items (.call c k) ∧
        c.Truthful (clusterAt before items) r := by
  generalize hall : items ++ [item] = all at h
  cases h with
  | start => exact absurd hall (List.append_ne_nil_of_right_ne_nil _ (List.cons_ne_nil _ _))
  | other items' _ w h =>
    obtain ⟨rfl, hlast⟩ := List.append_inj' hall rfl
    exact Or.inl ⟨w, List.singleton_inj.mp hlast, h⟩
  | own items' c k r h hr =>
    obtain ⟨rfl, hlast⟩ := List.append_inj' hall rfl
    exact Or.inr ⟨c, k, r, List.singleton_inj.mp hlast, h, hr⟩

/-- Each exchange was about the next call of the dispatch, and was answered by the cluster then. -/
theorem Interleaved.before_own (earlier later : List (Item I)) (x : Exchange (dispatching I))
    (h : Interleaved before t (earlier ++ .own x :: later) rest) :
    (∃ k, Interleaved before t earlier (.call x.call k)) ∧
      x.call.Truthful (clusterAt before earlier) x.reply := by
  induction later using List.reverseRecOn generalizing rest with
  | nil =>
    rcases h.of_concat with ⟨w, hw, _⟩ | ⟨c, k, r, hown, hcall, hr⟩
    · cases hw
    · cases hown
      exact ⟨⟨k, hcall⟩, hr⟩
  | append_singleton later item ih =>
    rw [← List.cons_append, ← List.append_assoc] at h
    rcases h.of_concat with ⟨w, _, hless⟩ | ⟨c, k, r, _, hless, _⟩
    · exact ih hless
    · exact ih hless

end Histories

end Dispatcher
end Reconciliation
