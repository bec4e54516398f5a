import Reconciliation.Proofs.Cluster.Ownership
import Mathlib.Data.List.Induction

/-!
Histories of a cluster. `Effect` says of every write what it answers and what it makes of the
cluster; `Change` says the same of the store alone, where it no longer matters which write it was.
What all histories have in common follows from these two by induction on the history.
-/
namespace Reconciliation

/-- A request to change a cluster, of a client or of a user. -/
inductive ClusterWrite where
  | create (o : ManagedObject)
  | patch (id : ResourceId) (expected : Version) (p : ObjectPatch)
  | editSpec (id : ResourceId) (spec : Json)
  | delete (id : ResourceId) (time : Timestamp)
  | injectConflicts (id : ResourceId) (count : Nat)

/-- The answer to a write, with the object if the write returns one, and the cluster after it. -/
def ClusterWrite.perform (c : Cluster) :
    ClusterWrite → Except Error (Option ManagedObject) × Cluster
  | create o => ((c.create o).1.map some, (c.create o).2)
  | patch id expected p => ((c.patch id expected p).1.map some, (c.patch id expected p).2)
  | editSpec id spec => ((c.editSpec id spec).1.map some, (c.editSpec id spec).2)
  | delete id time => ((c.delete id time).1.map fun _ => none, (c.delete id time).2)
  | injectConflicts id count => (.ok none, c.injectConflicts id count)

/-- A terminating object that no finalizer holds. -/
def ManagedObject.isReleased (o : ManagedObject) : Bool := o.isTerminating && o.finalizers.isEmpty

namespace Cluster

/-- The patches of an object that are still to be refused. -/
def conflictsLeft (c : Cluster) (id : ResourceId) : Nat := (c.injected.get? id).getD 0

/-- The object under a fresh version. -/
def renew (c : Cluster) (o : ManagedObject) : ManagedObject := { o with version := c.freshVersion }

/-- The object as it is first stored. -/
def newborn (c : Cluster) (o : ManagedObject) : ManagedObject :=
  c.renew { o with generation := 1, deletionRequestedAt := none }

/-- What comes of a write: its answer, and the cluster after it. -/
inductive Effect (c : Cluster) :
    ClusterWrite → Except Error (Option ManagedObject) → Cluster → Prop
  | failed (w : ClusterWrite) (e : Error) (injected : SortedMap ResourceId Nat)
      (hfewer : ∀ id, ({ c with injected } : Cluster).conflictsLeft id ≤ c.conflictsLeft id) :
      Effect c w (.error e) { c with injected }
  | injected (id : ResourceId) (count : Nat) :
      Effect c (.injectConflicts id count) (.ok none) (c.injectConflicts id count)
  | created (o : ManagedObject) (habsent : c.get? o.id = none) :
      Effect c (.create o) (.ok (some (c.newborn o))) (c.put .added (c.newborn o))
  | patched (o : ManagedObject) (hstored : c.get? o.id = some o) (p : ObjectPatch)
      (hkept : (c.renew (p.applyTo o)).isReleased = false) :
      Effect c (.patch o.id o.version p) (.ok (some (c.renew (p.applyTo o))))
        (c.put .updated (c.renew (p.applyTo o)))
  | released (o : ManagedObject) (hstored : c.get? o.id = some o) (p : ObjectPatch)
      (hgone : (c.renew (p.applyTo o)).isReleased = true) :
      Effect c (.patch o.id o.version p) (.ok (some (c.renew (p.applyTo o))))
        { c.remove (c.renew (p.applyTo o)) with lastVersion := c.lastVersion + 1 }
  | edited (o : ManagedObject) (hstored : c.get? o.id = some o) (spec : Json) :
      Effect c (.editSpec o.id spec)
        (.ok (some (c.renew ((ObjectPatch.setSpec spec none).applyTo o))))
        (c.put .updated (c.renew ((ObjectPatch.setSpec spec none).applyTo o)))
  | removed (o : ManagedObject) (hstored : c.get? o.id = some o)
      (hfree : o.finalizers.isEmpty = true) (time : Timestamp) :
      Effect c (.delete o.id time) (.ok none) (c.remove o)
  | held (o : ManagedObject) (hstored : c.get? o.id = some o)
      (hheld : o.finalizers.isEmpty = false) (hterminating : o.isTerminating = true)
      (time : Timestamp) : Effect c (.delete o.id time) (.ok none) c
  | marked (o : ManagedObject) (hstored : c.get? o.id = some o)
      (hheld : o.finalizers.isEmpty = false) (hactive : o.isTerminating = false)
      (time : Timestamp) :
      Effect c (.delete o.id time) (.ok none)
        (c.put .updated (c.renew { o with deletionRequestedAt := some time }))

section Writes
variable (c : Cluster)

theorem effect_refused (w : ClusterWrite) (e : Error) : Effect c w (.error e) c :=
  .failed w e c.injected fun _ => Nat.le_refl _

theorem effect_create (o : ManagedObject) :
    Effect c (.create o) ((c.create o).1.map some) (c.create o).2 := by
  unfold create
  split
  · exact c.effect_refused _ _
  · rename_i habsent
    unfold SortedMap.contains at habsent
    exact .created o (Option.not_isSome_iff_eq_none.mp habsent)

variable (hc : c.Keyed)
include hc

/-- A patch is refused for a missing object or for another version, and otherwise applied. -/
theorem effect_checkedPatch (id : ResourceId) (expected : Version) (p : ObjectPatch) :
    Effect c (.patch id expected p) ((c.checkedPatch id expected p).1.map some)
      (c.checkedPatch id expected p).2 := by
  unfold checkedPatch
  cases hget : c.get? id with
  | none => exact c.effect_refused _ _
  | some o =>
    obtain rfl : o.id = id := hc id o hget
    dsimp only
    split
    · rename_i hversion
      obtain rfl := hversion
      cases hgone : (c.renew (p.applyTo o)).isReleased with
      | true =>
        have heffect := Effect.released o hget p hgone
        rwa [← show c.settle (c.renew (p.applyTo o)) = _ from if_pos hgone] at heffect
      | false =>
        have heffect := Effect.patched o hget p hgone
        rwa [← show c.settle (c.renew (p.applyTo o)) = _ from
          if_neg (Bool.eq_false_iff.mp hgone)] at heffect
    · exact c.effect_refused _ _

/-- So is a patch that an injected conflict may refuse first. -/
theorem effect_patch (id : ResourceId) (expected : Version) (p : ObjectPatch) :
    Effect c (.patch id expected p) ((c.patch id expected p).1.map some)
      (c.patch id expected p).2 := by
  unfold patch
  split
  · rename_i n hconflicts
    refine .failed _ _ _ fun id' => ?_
    unfold conflictsLeft
    by_cases hid : id' = id
    · subst hid
      rw [SortedMap.get?_insert_self, hconflicts]
      exact Nat.le_succ n
    · have hsame := c.injected.get?_insert_of_ne id n id' hid
      exact Nat.le_of_eq (congrArg (·.getD 0) hsame)
  · exact c.effect_checkedPatch hc id expected p

theorem effect_editSpec (id : ResourceId) (spec : Json) :
    Effect c (.editSpec id spec) ((c.editSpec id spec).1.map some) (c.editSpec id spec).2 := by
  unfold editSpec
  cases hget : c.get? id with
  | none => exact c.effect_refused _ _
  | some o =>
    obtain rfl : o.id = id := hc id o hget
    exact .edited o hget spec

/-- A deletion removes an object that nothing holds, and marks one that a finalizer holds. -/
theorem effect_delete (id : ResourceId) (time : Timestamp) :
    Effect c (.delete id time) ((c.delete id time).1.map fun _ => none) (c.delete id time).2 := by
  unfold delete
  cases hget : c.get? id with
  | none => exact c.effect_refused _ _
  | some o =>
    obtain rfl : o.id = id := hc id o hget
    dsimp only
    split
    · rename_i hfree
      exact .removed o hget hfree time
    · rename_i hheld
      have hheld : o.finalizers.isEmpty = false := Bool.eq_false_iff.mpr hheld
      split
      · rename_i hterminating
        exact .held o hget hheld hterminating time
      · rename_i hactive
        exact .marked o hget hheld (Bool.eq_false_iff.mpr hactive) time

/-- Every write has one of the effects. -/
theorem effect_perform (w : ClusterWrite) : Effect c w (w.perform c).1 (w.perform c).2 := by
  cases w with
  | create o => exact c.effect_create o
  | patch id expected p => exact c.effect_patch hc id expected p
  | editSpec id spec => exact c.effect_editSpec hc id spec
  | delete id time => exact c.effect_delete hc id time
  | injectConflicts id count => exact .injected id count

end Writes

/-- What a write does to the store. -/
inductive Change (c : Cluster) : Cluster → Prop
  | idle (injected : SortedMap ResourceId Nat) : Change c { c with injected }
  | added (o : ManagedObject) (hversion : o.version = c.freshVersion)
      (habsent : c.get? o.id = none) : Change c (c.put .added o)
  | updated (o old : ManagedObject) (hversion : o.version = c.freshVersion)
      (hstored : c.get? o.id = some old) : Change c (c.put .updated o)
  | released (o old : ManagedObject) (hversion : o.version = c.freshVersion)
      (hstored : c.get? o.id = some old) :
      Change c { c.remove o with lastVersion := c.lastVersion + 1 }
  | removed (o : ManagedObject) (hstored : c.get? o.id = some o) : Change c (c.remove o)

/-- Every write changes the store in one of a few ways. -/
theorem Effect.change {c c' : Cluster} {w : ClusterWrite}
    {answer : Except Error (Option ManagedObject)} (h : Effect c w answer c') : Change c c' := by
  cases h with
  | failed w e injected => exact .idle injected
  | injected id count => exact .idle _
  | created o habsent => exact .added (c.newborn o) rfl habsent
  | patched o hstored p hkept => exact .updated (c.renew (p.applyTo o)) o rfl hstored
  | released o hstored p hgone => exact .released (c.renew (p.applyTo o)) o rfl hstored
  | edited o hstored spec =>
    exact .updated (c.renew ((ObjectPatch.setSpec spec none).applyTo o)) o rfl hstored
  | removed o hstored hfree time => exact .removed o hstored
  | held o hstored hheld hterminating time => exact .idle c.injected
  | marked o hstored hheld hactive time =>
    exact .updated (c.renew { o with deletionRequestedAt := some time }) o rfl hstored

section Stored
variable (c : Cluster) (action : ChangeAction) (o : ManagedObject)

theorem get?_put_self : (c.put action o).get? o.id = some o :=
  c.objects.get?_insert_self o.id o

theorem get?_put_of_ne (id : ResourceId) (hne : id ≠ o.id) :
    (c.put action o).get? id = c.get? id :=
  c.objects.get?_insert_of_ne o.id o id hne

theorem get?_remove_self : (c.remove o).get? o.id = none := c.objects.get?_erase_self o.id

theorem get?_remove_of_ne (id : ResourceId) (hne : id ≠ o.id) :
    (c.remove o).get? id = c.get? id :=
  c.objects.get?_erase_of_ne o.id id hne

end Stored

/-- A patch that succeeds makes its result of the stored object of that version. -/
theorem Effect.of_patch {c c' : Cluster} {id : ResourceId} {v : Version} {p : ObjectPatch}
    {r : ManagedObject} (h : Effect c (.patch id v p) (.ok (some r)) c') :
    ∃ o, o.id = id ∧ o.version = v ∧ c.get? id = some o ∧ r = c.renew (p.applyTo o) ∧
      c'.get? id = if r.isReleased then none else some r := by
  cases h with
  | patched o hstored _ hkept =>
    refine ⟨o, rfl, rfl, hstored, rfl, ?_⟩
    rw [if_neg (Bool.eq_false_iff.mp hkept)]
    exact c.get?_put_self .updated (c.renew (p.applyTo o))
  | released o hstored _ hgone =>
    refine ⟨o, rfl, rfl, hstored, rfl, ?_⟩
    rw [if_pos hgone]
    exact c.get?_remove_self (c.renew (p.applyTo o))

/-- A patch for the version that is stored goes through, unless a conflict is injected. -/
theorem patch_of_current (c : Cluster) (id : ResourceId) (o : ManagedObject)
    (hstored : c.get? id = some o) (hconflicts : c.conflictsLeft id = 0) (p : ObjectPatch) :
    (c.patch id o.version p).1 = .ok (c.renew (p.applyTo o)) := by
  unfold patch
  split
  · rename_i n hleft
    unfold conflictsLeft at hconflicts
    rw [hleft] at hconflicts
    cases hconflicts
  · unfold checkedPatch
    rw [hstored]
    dsimp only
    rw [if_pos rfl]
    rfl

theorem Change.keyed {c c' : Cluster} (h : Change c c') (hc : c.Keyed) : c'.Keyed := by
  have hput : ∀ action o, (c.put action o).Keyed := fun action o =>
    (c.changesAt_put action o (fun _ => True) trivial).keyed hc
  have hremove : ∀ o, (c.remove o).Keyed := fun o =>
    (c.changesAt_remove o fun _ => True).keyed hc
  cases h with
  | idle injected => exact hc
  | added o => exact hput .added o
  | updated o => exact hput .updated o
  | released o => exact hremove o
  | removed o => exact hremove o

/-- The cluster after writes, from the first to the last. -/
def after (c : Cluster) (ws : List ClusterWrite) : Cluster :=
  ws.foldl (fun c w => (w.perform c).2) c

theorem after_append (c : Cluster) (ws more : List ClusterWrite) :
    c.after (ws ++ more) = (c.after ws).after more :=
  List.foldl_append

theorem after_concat (c : Cluster) (ws : List ClusterWrite) (w : ClusterWrite) :
    c.after (ws ++ [w]) = (w.perform (c.after ws)).2 :=
  c.after_append ws [w]

/-- The cluster that a history of writes makes of an empty one. -/
abbrev ofHistory (ws : List ClusterWrite) : Cluster := after {} ws

theorem ofHistory_concat (ws : List ClusterWrite) (w : ClusterWrite) :
    ofHistory (ws ++ [w]) = (w.perform (ofHistory ws)).2 :=
  after_concat {} ws w

theorem ofHistory_split (before since : List ClusterWrite) (w : ClusterWrite) :
    ofHistory (before ++ w :: since) = (ofHistory (before ++ [w])).after since := by
  rw [List.append_cons, ofHistory, after_append]

theorem keyed_ofHistory (ws : List ClusterWrite) : (ofHistory ws).Keyed := by
  induction ws using List.reverseRecOn with
  | nil => exact keyed_empty
  | append_singleton ws w ih =>
    rw [ofHistory_concat]
    exact (effect_perform _ ih w).change.keyed ih

/-- What comes of the next write of a history. -/
theorem effect_next (ws : List ClusterWrite) (w : ClusterWrite) :
    Effect (ofHistory ws) w (w.perform (ofHistory ws)).1 (ofHistory (ws ++ [w])) := by
  rw [ofHistory_concat]
  exact effect_perform _ (keyed_ofHistory ws) w

/-- What every change of the store keeps holds after every history. -/
theorem ofHistory_keeps (P : Cluster → Prop) (hempty : P {})
    (hchange : ∀ c c', c.Keyed → Change c c' → P c → P c') (ws : List ClusterWrite) :
    P (ofHistory ws) := by
  induction ws using List.reverseRecOn with
  | nil => exact hempty
  | append_singleton ws w ih =>
    exact hchange _ _ (keyed_ofHistory ws) (effect_next ws w).change ih

end Cluster
end Reconciliation
