import Reconciliation.Proofs.Cluster.Lifetime
import Reconciliation.Proofs.Cluster.Replay

/-!
What one event of the feed says after the others. An event of an object follows the state that
the events before it show: the labels of the object stay, and its generation stays as long as its
spec does. A reader who begins in the middle of the feed comes to know the same states.
-/
namespace Reconciliation

/-- The value is equal to itself, as is every value without a float that is no number. -/
def Json.Reflexive (j : Json) : Prop := (j == j) = true

/-- A spec that comes with the write is equal to itself. -/
def ClusterWrite.ReflexiveSpec : ClusterWrite → Prop
  | create o => o.spec.Reflexive
  | patch _ _ p => ∀ spec, p.spec = some spec → spec.Reflexive
  | editSpec _ spec => spec.Reflexive
  | delete .. | injectConflicts .. => True

/-- The event may come next after a state of its object. -/
inductive ChangeEvent.Follows : Option ManagedObject → ChangeEvent → Prop
  | added (o : ManagedObject) : Follows none ⟨.added, o⟩
  | updated (old o : ManagedObject) (hlabels : o.labels = old.labels)
      (hspec : o.generation = old.generation ↔ (o.spec == old.spec) = true) :
      Follows (some old) ⟨.updated, o⟩
  | deleted (old o : ManagedObject) (hlabels : o.labels = old.labels) :
      Follows (some old) ⟨.deleted, o⟩

/-- Below the greatest generation a patch keeps the generation just when it keeps the spec. -/
theorem ObjectPatch.nextGeneration_eq_iff (p : ObjectPatch) (o : ManagedObject)
    (hself : o.spec.Reflexive) (hlt : o.generation.toNat < UInt64.size - 1) :
    p.nextGeneration o = o.generation ↔ (p.spec.getD o.spec == o.spec) = true := by
  unfold nextGeneration
  cases p.spec with
  | none => exact iff_of_true rfl hself
  | some spec =>
    dsimp only [Option.getD_some]
    cases hsame : spec == o.spec with
    | true => exact iff_of_true rfl rfl
    | false =>
      rw [if_neg Bool.false_ne_true]
      refine iff_of_false (fun h => ?_) Bool.false_ne_true
      have hnat := congrArg UInt64.toNat h
      rw [toNat_saturatingSucc] at hnat
      have hsize : UInt64.size - 1 = 0xFFFFFFFFFFFFFFFF := rfl
      omega

namespace Cluster

/-- The spec of every stored object is equal to itself, and no generation has passed the number of
writes. -/
structure Moderate (c : Cluster) : Prop where
  spec : ∀ id o, c.get? id = some o → o.spec.Reflexive
  generation : ∀ id o, c.get? id = some o → o.generation.toNat ≤ c.writes

theorem moderate_empty : ({} : Cluster).Moderate := ⟨nofun, nofun⟩

theorem Moderate.put {c : Cluster} (h : c.Moderate) (action : ChangeAction) (new : ManagedObject)
    (hspec : new.spec.Reflexive) (hgeneration : new.generation.toNat ≤ c.writes + 1) :
    (c.put action new).Moderate := by
  constructor
  · intro id o ho
    by_cases hid : id = new.id
    · rw [hid, get?_put_self] at ho
      exact Option.some.inj ho ▸ hspec
    · rw [get?_put_of_ne _ _ _ _ hid] at ho
      exact h.spec id o ho
  · intro id o ho
    by_cases hid : id = new.id
    · rw [hid, get?_put_self] at ho
      exact Option.some.inj ho ▸ hgeneration
    · rw [get?_put_of_ne _ _ _ _ hid] at ho
      exact Nat.le_succ_of_le (h.generation id o ho)

theorem Moderate.remove {c : Cluster} (h : c.Moderate) (old : ManagedObject) :
    (c.remove old).Moderate := by
  have hstored : ∀ id o, (c.remove old).get? id = some o → c.get? id = some o := by
    intro id o ho
    by_cases hid : id = old.id
    · rw [hid, get?_remove_self] at ho
      cases ho
    · rwa [get?_remove_of_ne _ _ _ hid] at ho
  exact ⟨fun id o ho => h.spec id o (hstored id o ho),
    fun id o ho => Nat.le_succ_of_le (h.generation id o (hstored id o ho))⟩

section Patched
variable {c : Cluster} (h : c.Moderate) {o : ManagedObject} (hstored : c.get? o.id = some o)
  (p : ObjectPatch)
include h hstored

theorem Moderate.spec_applyTo (hp : ∀ spec, p.spec = some spec → spec.Reflexive) :
    (p.applyTo o).spec.Reflexive := by
  change (p.spec.getD o.spec).Reflexive
  cases hspec : p.spec with
  | none => exact h.spec o.id o hstored
  | some spec => exact hp spec hspec

theorem Moderate.generation_applyTo : (p.applyTo o).generation.toNat ≤ c.writes + 1 := by
  have hle := h.generation o.id o hstored
  have hnext := p.toNat_nextGeneration o
  have hone := Bool.toNat_le (p.spec.isSome && p.spec.getD o.spec != o.spec)
  change (p.nextGeneration o).toNat ≤ c.writes + 1
  omega

end Patched

/-- No write takes a generation past the count of writes. -/
theorem Effect.moderate {c c' : Cluster} {w : ClusterWrite}
    {answer : Except Error (Option ManagedObject)} (heffect : Effect c w answer c')
    (hw : w.ReflexiveSpec) (h : c.Moderate) : c'.Moderate := by
  cases heffect with
  | failed => exact ⟨h.spec, h.generation⟩
  | injected => exact ⟨h.spec, h.generation⟩
  | created o habsent =>
    refine h.put .added (c.newborn o) hw ?_
    change 1 ≤ c.writes + 1
    omega
  | patched o hstored p hkept =>
    exact h.put .updated _ (h.spec_applyTo hstored p hw) (h.generation_applyTo hstored p)
  | released o hstored p hgone =>
    have hremoved := h.remove (c.renew (p.applyTo o))
    exact ⟨hremoved.spec, hremoved.generation⟩
  | edited o hstored spec =>
    refine h.put .updated _ (h.spec_applyTo hstored (.setSpec spec none) ?_)
      (h.generation_applyTo hstored (.setSpec spec none))
    rintro _ ⟨⟩
    exact hw
  | removed o => exact h.remove o
  | held => exact h
  | marked o hstored hheld hactive time =>
    exact h.put .updated _ (h.spec o.id o hstored)
      (Nat.le_succ_of_le (h.generation o.id o hstored))

/-- A write adds one event to the feed at most, and it follows what is stored. -/
theorem Effect.follows {c c' : Cluster} {w : ClusterWrite}
    {answer : Except Error (Option ManagedObject)} (heffect : Effect c w answer c')
    (h : c.Moderate) (hfew : c'.writes < UInt64.size) :
    c'.feed = c.feed ∨
      ∃ e, c'.feed = c.feed ++ [e] ∧ e.Follows (c.get? e.object.id) := by
  have hfeed : ∀ e, (e :: c.log).reverse = c.feed ++ [e] := fun e => List.reverse_cons
  have hroom : ∀ o : ManagedObject, c.get? o.id = some o → c.writes + 1 < UInt64.size →
      o.generation.toNat < UInt64.size - 1 := by
    intro o hstored hlt
    have hle := h.generation o.id o hstored
    omega
  cases heffect with
  | failed => exact Or.inl rfl
  | injected => exact Or.inl rfl
  | held => exact Or.inl rfl
  | created o habsent =>
    refine Or.inr ⟨⟨.added, c.newborn o⟩, hfeed _, ?_⟩
    rw [show c.get? (c.newborn o).id = none from habsent]
    exact .added _
  | patched o hstored p hkept =>
    refine Or.inr ⟨⟨.updated, c.renew (p.applyTo o)⟩, hfeed _, ?_⟩
    rw [show c.get? (c.renew (p.applyTo o)).id = some o from hstored]
    exact .updated o _ rfl
      (p.nextGeneration_eq_iff o (h.spec o.id o hstored) (hroom o hstored hfew))
  | released o hstored p hgone =>
    refine Or.inr ⟨⟨.deleted, c.renew (p.applyTo o)⟩, hfeed _, ?_⟩
    rw [show c.get? (c.renew (p.applyTo o)).id = some o from hstored]
    exact .deleted o _ rfl
  | edited o hstored spec =>
    refine Or.inr ⟨⟨.updated, c.renew ((ObjectPatch.setSpec spec none).applyTo o)⟩, hfeed _, ?_⟩
    rw [show c.get? (c.renew ((ObjectPatch.setSpec spec none).applyTo o)).id = some o from
      hstored]
    exact .updated o _ rfl ((ObjectPatch.setSpec spec none).nextGeneration_eq_iff o
      (h.spec o.id o hstored) (hroom o hstored hfew))
  | removed o hstored =>
    refine Or.inr ⟨⟨.deleted, o⟩, hfeed _, ?_⟩
    rw [hstored]
    exact .deleted o o rfl
  | marked o hstored hheld hactive time =>
    refine Or.inr ⟨⟨.updated, c.renew { o with deletionRequestedAt := some time }⟩, hfeed _, ?_⟩
    rw [show c.get? (c.renew { o with deletionRequestedAt := some time }).id = some o from
      hstored]
    exact .updated o _ rfl (iff_of_true rfl (h.spec o.id o hstored))

/-- A write that comes without a spec leaves the spec of the object as it is. -/
theorem Effect.spec_kept {c c' : Cluster} {w : ClusterWrite}
    {answer : Except Error (Option ManagedObject)} (heffect : Effect c w answer c')
    (hw : w.setsSpec = false) (o : ManagedObject) (hfeed : c'.feed = c.feed ++ [⟨.updated, o⟩]) :
    ∃ old, c.get? o.id = some old ∧ o.spec = old.spec := by
  have hlog : c'.log = ⟨.updated, o⟩ :: c.log := by
    have hreversed := congrArg List.reverse hfeed
    unfold feed at hreversed
    rwa [List.reverse_append, List.reverse_reverse, List.reverse_reverse] at hreversed
  have hidle : c'.log ≠ c.log := fun h => List.cons_ne_self _ _ (hlog.symm.trans h)
  cases heffect with
  | failed => exact absurd rfl hidle
  | injected => exact absurd rfl hidle
  | held => exact absurd rfl hidle
  | created o' => cases (List.cons.inj hlog).1
  | patched o' hstored p hkept =>
    cases (List.cons.inj hlog).1
    refine ⟨o', hstored, ?_⟩
    have hnone : p.spec = none := Option.not_isSome_iff_eq_none.mp (Bool.eq_false_iff.mp hw)
    change p.spec.getD o'.spec = o'.spec
    rw [hnone]
    rfl
  | released o' => cases (List.cons.inj hlog).1
  | edited => cases hw
  | removed o' => cases (List.cons.inj hlog).1
  | marked o' hstored =>
    cases (List.cons.inj hlog).1
    exact ⟨o', hstored, rfl⟩

/-- Every event of the feed follows what the events before it show. -/
def Unbroken (es : List ChangeEvent) : Prop :=
  ∀ before e rest, es = before ++ e :: rest → e.Follows ((replay before).get? e.object.id)

theorem Unbroken.concat {es : List ChangeEvent} (h : Unbroken es) (e : ChangeEvent)
    (he : e.Follows ((replay es).get? e.object.id)) : Unbroken (es ++ [e]) := by
  intro before e' rest hsplit
  rcases List.eq_nil_or_concat rest with rfl | ⟨rest, last, rfl⟩
  · obtain ⟨rfl, hlast⟩ := List.append_inj' hsplit rfl
    obtain rfl : e = e' := List.singleton_inj.mp hlast
    exact he
  · have hsplit : es ++ [e] = (before ++ e' :: rest) ++ [last] := by
      rw [hsplit, List.concat_eq_append, List.append_assoc, List.cons_append]
    exact h before e' rest (List.append_inj_left' hsplit rfl)

theorem Change.writes_le {c c' : Cluster} (h : Change c c') : c.writes ≤ c'.writes := by
  cases h with
  | idle => exact Nat.le_refl _
  | added | updated | released | removed => exact Nat.le_succ _

theorem writes_ofHistory_le (ws more : List ClusterWrite) :
    (ofHistory ws).writes ≤ (ofHistory (ws ++ more)).writes := by
  induction more using List.reverseRecOn with
  | nil => exact Nat.le_of_eq (by rw [List.append_nil])
  | append_singleton more w ih =>
    rw [← List.append_assoc]
    exact Nat.le_trans ih (effect_next (ws ++ more) w).change.writes_le

/-- Every history with fewer writes than there are generations has such a feed. -/
theorem unbroken_ofHistory (ws : List ClusterWrite) (hws : ∀ w ∈ ws, w.ReflexiveSpec)
    (hfew : (ofHistory ws).writeCount < UInt64.size) :
    (ofHistory ws).Moderate ∧ Unbroken (ofHistory ws).feed := by
  induction ws using List.reverseRecOn with
  | nil =>
    refine ⟨moderate_empty, fun before e rest hsplit => ?_⟩
    exact absurd (List.append_eq_nil_iff.mp hsplit.symm).2 (List.cons_ne_nil e rest)
  | append_singleton ws w ih =>
    have heffect := effect_next ws w
    have hbefore := Nat.lt_of_le_of_lt heffect.change.writes_le hfew
    obtain ⟨hmoderate, hunbroken⟩ :=
      ih (fun w' hw' => hws w' (List.mem_append_left _ hw')) hbefore
    have hw := hws w (List.mem_append_right ws (List.mem_singleton_self w))
    refine ⟨heffect.moderate hw hmoderate, ?_⟩
    rcases heffect.follows hmoderate hfew with hsame | ⟨e, hfeed, hfollows⟩
    · rw [hsame]
      exact hunbroken
    · rw [hfeed]
      refine hunbroken.concat e ?_
      rw [(faithful_ofHistory ws).replays]
      exact hfollows

theorem get?_replayOn_of_ne (objects : SortedMap ResourceId ManagedObject) (e : ChangeEvent)
    (id : ResourceId) (hne : id ≠ e.object.id) :
    (e.replayOn objects).get? id = objects.get? id := by
  unfold ChangeEvent.replayOn
  cases e.action with
  | added => exact objects.get?_insert_of_ne e.object.id e.object id hne
  | updated => exact objects.get?_insert_of_ne e.object.id e.object id hne
  | deleted => exact objects.get?_erase_of_ne e.object.id id hne

theorem get?_replayOn_self (objects : SortedMap ResourceId ManagedObject) (e : ChangeEvent) :
    (e.replayOn objects).get? e.object.id =
      if e.action = .deleted then none else some e.object := by
  unfold ChangeEvent.replayOn
  cases e.action with
  | added => exact objects.get?_insert_self e.object.id e.object
  | updated => exact objects.get?_insert_self e.object.id e.object
  | deleted => exact objects.get?_erase_self e.object.id

/-- What the later events show of an object is what all of them show. -/
theorem replay_append_of_shown (earlier later : List ChangeEvent) (id : ResourceId)
    (o : ManagedObject) (ho : (replay later).get? id = some o) :
    (replay (earlier ++ later)).get? id = some o := by
  induction later using List.reverseRecOn with
  | nil => cases ho
  | append_singleton later e ih =>
    rw [← List.append_assoc, replay_concat]
    rw [replay_concat] at ho
    by_cases hid : id = e.object.id
    · subst hid
      rwa [get?_replayOn_self] at ho ⊢
    · rw [get?_replayOn_of_ne _ _ _ hid] at ho ⊢
      exact ih ho

/-- After a write that comes without a spec the feed shows the spec that it showed before. -/
theorem spec_of_silent_write (ws : List ClusterWrite) (hws : ∀ w ∈ ws, w.ReflexiveSpec)
    (hfew : (ofHistory ws).writeCount < UInt64.size) (w : ClusterWrite)
    (hw : w.setsSpec = false) (e : ChangeEvent) (hupdated : e.action = .updated)
    (hfeed : (ofHistory (ws ++ [w])).feed = (ofHistory ws).feed ++ [e]) (o : ManagedObject)
    (ho : (replay (ofHistory ws).feed).get? e.object.id = some o) :
    (e.object.spec == o.spec) = true := by
  obtain ⟨action, new⟩ := e
  obtain rfl : action = .updated := hupdated
  obtain ⟨old, hold, hspec⟩ := (effect_next ws w).spec_kept hw new hfeed
  rw [(faithful_ofHistory ws).replays] at ho
  obtain rfl : old = o := Option.some.inj (hold.symm.trans ho)
  rw [hspec]
  exact (unbroken_ofHistory ws hws hfew).1.spec new.id old hold

/-- The event is the latest one of its object, and does not report its end. -/
def Latest (es : List ChangeEvent) (id : ResourceId) (e : ChangeEvent) : Prop :=
  ∃ before between, es = before ++ e :: between ∧ e.object.id = id ∧ e.action ≠ .deleted ∧
    ∀ x ∈ between, x.object.id ≠ id

theorem Latest.concat_of_ne {es : List ChangeEvent} {id : ResourceId} {e : ChangeEvent}
    (h : Latest es id e) (last : ChangeEvent) (hne : last.object.id ≠ id) :
    Latest (es ++ [last]) id e := by
  obtain ⟨before, between, rfl, hid, haction, hbetween⟩ := h
  refine ⟨before, between ++ [last], by simp, hid, haction, fun x hx => ?_⟩
  rcases List.mem_append.mp hx with hx | hx
  · exact hbetween x hx
  · exact List.mem_singleton.mp hx ▸ hne

/-- The latest event of an object is the last one, or it was the latest before an event of another
object. -/
theorem Latest.of_concat {es : List ChangeEvent} {id : ResourceId} {e last : ChangeEvent}
    (h : Latest (es ++ [last]) id e) :
    (last = e ∧ last.object.id = id ∧ last.action ≠ .deleted) ∨
      (last.object.id ≠ id ∧ Latest es id e) := by
  obtain ⟨before, between, hsplit, hid, haction, hbetween⟩ := h
  rcases List.eq_nil_or_concat between with rfl | ⟨between, last', rfl⟩
  · obtain ⟨rfl, hlast⟩ := List.append_inj' hsplit rfl
    obtain rfl : last = e := List.singleton_inj.mp hlast
    exact Or.inl ⟨rfl, hid, haction⟩
  · have hsplit : es ++ [last] = (before ++ e :: between) ++ [last'] := by
      rw [hsplit, List.concat_eq_append, List.append_assoc, List.cons_append]
    obtain ⟨rfl, hlast⟩ := List.append_inj' hsplit rfl
    obtain rfl : last = last' := List.singleton_inj.mp hlast
    rw [List.concat_eq_append] at hbetween
    refine Or.inr ⟨hbetween last (List.mem_append_right _ (List.mem_singleton_self last)),
      before, between, rfl, hid, haction, fun x hx => hbetween x (List.mem_append_left _ hx)⟩

/-- The events show an object as the latest of them has it. -/
theorem get?_replay_iff (es : List ChangeEvent) (id : ResourceId) (o : ManagedObject) :
    (replay es).get? id = some o ↔ ∃ e, Latest es id e ∧ e.object = o := by
  induction es using List.reverseRecOn with
  | nil =>
    refine iff_of_false nofun ?_
    rintro ⟨e, ⟨before, between, hnil, _⟩, _⟩
    exact absurd (List.append_eq_nil_iff.mp hnil.symm).2 (List.cons_ne_nil e between)
  | append_singleton es last ih =>
    rw [replay_concat]
    by_cases hid : id = last.object.id
    · subst hid
      rw [get?_replayOn_self]
      constructor
      · intro ho
        split at ho
        · cases ho
        · rename_i haction
          exact ⟨last, ⟨es, [], rfl, rfl, haction, nofun⟩, Option.some.inj ho⟩
      · rintro ⟨e, hlatest, rfl⟩
        rcases hlatest.of_concat with ⟨rfl, _, haction⟩ | ⟨hne, _⟩
        · rw [if_neg haction]
        · exact absurd rfl hne
    · rw [get?_replayOn_of_ne _ _ _ hid, ih]
      constructor
      · rintro ⟨e, hlatest, ho⟩
        exact ⟨e, hlatest.concat_of_ne last (Ne.symm hid), ho⟩
      · rintro ⟨e, hlatest, ho⟩
        rcases hlatest.of_concat with ⟨_, hlast, _⟩ | ⟨_, hlatest⟩
        · exact absurd hlast.symm hid
        · exact ⟨e, hlatest, ho⟩

end Cluster
end Reconciliation
