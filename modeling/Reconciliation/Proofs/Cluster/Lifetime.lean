import Reconciliation.Proofs.Cluster.History

/-!
The life of an object of a cluster, from its creation to its removal. `Becomes` says what a write
makes of one stored object. Finalizers hold a terminating object in the store, nothing makes it
active again, and its generation counts the changes of its spec.
-/
namespace Reconciliation

/-- The write comes with a spec for an object that is there. -/
def ClusterWrite.setsSpec : ClusterWrite → Bool
  | .patch _ _ p => p.spec.isSome
  | .editSpec _ _ => true
  | .create _ | .delete _ _ | .injectConflicts _ _ => false

/-- The generation goes up by one with a new spec, and stops at its greatest value. -/
theorem ObjectPatch.toNat_nextGeneration (p : ObjectPatch) (o : ManagedObject) :
    (p.nextGeneration o).toNat =
      min (o.generation.toNat + (p.spec.isSome && p.spec.getD o.spec != o.spec).toNat)
        (UInt64.size - 1) := by
  have hsize : UInt64.size - 1 = 0xFFFFFFFFFFFFFFFF := rfl
  have hlt : o.generation.toNat < UInt64.size := o.generation.toNat_lt
  unfold nextGeneration
  cases p.spec with
  | none =>
    change o.generation.toNat = min (o.generation.toNat + 0) _
    omega
  | some spec =>
    change _ = min (o.generation.toNat + (!(spec == o.spec)).toNat) _
    dsimp only
    cases spec == o.spec with
    | true =>
      change o.generation.toNat = min (o.generation.toNat + 0) _
      omega
    | false =>
      change (saturatingSucc o.generation).toNat = min (o.generation.toNat + 1) _
      rw [toNat_saturatingSucc, hsize]

namespace Cluster

/-- The write gives a stored object another spec. -/
def respecs (c : Cluster) (id : ResourceId) (w : ClusterWrite) : Bool :=
  match c.get? id, (w.perform c).1 with
  -- values need not be equal to themselves, so a spec that is not set is not compared
  | some o, .ok (some r) => r.id = id && w.setsSpec && r.spec != o.spec
  | _, _ => false

/-- The number of writes that give the stored object another spec. -/
def specChanges (c : Cluster) (id : ResourceId) : List ClusterWrite → Nat
  | [] => 0
  | w :: ws => (c.respecs id w).toNat + specChanges (w.perform c).2 id ws

theorem specChanges_concat (c : Cluster) (id : ResourceId) (ws : List ClusterWrite)
    (w : ClusterWrite) :
    c.specChanges id (ws ++ [w]) = c.specChanges id ws + ((c.after ws).respecs id w).toNat := by
  induction ws generalizing c with
  | nil => exact Nat.add_comm _ 0
  | cons first rest ih =>
    rw [List.cons_append, specChanges, specChanges, ih, Nat.add_assoc]
    rfl

/-- What a write with this answer makes of a stored object. -/
inductive Becomes (c : Cluster) (o : ManagedObject) :
    ClusterWrite → Except Error (Option ManagedObject) → Option ManagedObject → Prop
  | kept (w : ClusterWrite) (answer : Except Error (Option ManagedObject))
      (hother : ∀ r, answer = .ok (some r) → r.id ≠ o.id) : Becomes c o w answer (some o)
  | patched (p : ObjectPatch) (hkept : (c.renew (p.applyTo o)).isReleased = false) :
      Becomes c o (.patch o.id o.version p) (.ok (some (c.renew (p.applyTo o))))
        (some (c.renew (p.applyTo o)))
  | released (p : ObjectPatch) (hgone : (c.renew (p.applyTo o)).isReleased = true) :
      Becomes c o (.patch o.id o.version p) (.ok (some (c.renew (p.applyTo o)))) none
  | edited (spec : Json) :
      Becomes c o (.editSpec o.id spec)
        (.ok (some (c.renew ((ObjectPatch.setSpec spec none).applyTo o))))
        (some (c.renew ((ObjectPatch.setSpec spec none).applyTo o)))
  | removed (hfree : o.finalizers.isEmpty = true) (time : Timestamp) :
      Becomes c o (.delete o.id time) (.ok none) none
  | marked (hheld : o.finalizers.isEmpty = false) (hactive : o.isTerminating = false)
      (time : Timestamp) :
      Becomes c o (.delete o.id time) (.ok none)
        (some (c.renew { o with deletionRequestedAt := some time }))

section Effects
variable {c c' : Cluster} {o : ManagedObject} (hstored : c.get? o.id = some o)
  {w : ClusterWrite} {answer : Except Error (Option ManagedObject)}
include hstored

/-- An object that is put makes a difference to the stored object of its identity only. -/
theorem becomes_put (action : ChangeAction) (new : ManagedObject)
    (hanswer : ∀ r, answer = .ok (some r) → r.id = new.id)
    (hself : o.id = new.id → Becomes c o w answer (some new)) :
    Becomes c o w answer ((c.put action new).get? o.id) := by
  by_cases hid : o.id = new.id
  · rw [hid, get?_put_self]
    exact hself hid
  · rw [get?_put_of_ne _ _ _ _ hid, hstored]
    exact .kept w answer fun r hr heq => hid (heq.symm.trans (hanswer r hr))

theorem becomes_remove (old : ManagedObject)
    (hanswer : ∀ r, answer = .ok (some r) → r.id = old.id)
    (hself : o.id = old.id → Becomes c o w answer none) :
    Becomes c o w answer ((c.remove old).get? o.id) := by
  by_cases hid : o.id = old.id
  · rw [hid, get?_remove_self]
    exact hself hid
  · rw [get?_remove_of_ne _ _ _ hid, hstored]
    exact .kept w answer fun r hr heq => hid (heq.symm.trans (hanswer r hr))

/-- What a write makes of an object that was stored before. -/
theorem Effect.becomes (h : Effect c w answer c') : Becomes c o w answer (c'.get? o.id) := by
  have hsame : ∀ o', c.get? o'.id = some o' → o.id = o'.id → o' = o := fun o' hstored' hid =>
    Option.some.inj (hstored'.symm.trans (hid ▸ hstored))
  have hnamed : ∀ new r : ManagedObject,
      (Except.ok (some new) : Except Error (Option ManagedObject)) = .ok (some r) →
        r.id = new.id := by
    rintro new _ ⟨⟩
    rfl
  have hsilent : ∀ w answer, (∀ r, answer ≠ .ok (some r)) →
      Becomes c o w answer (c.get? o.id) := by
    intro w answer hanswer
    rw [hstored]
    exact .kept w answer fun r hr => absurd hr (hanswer r)
  cases h with
  | failed w e injected => exact hsilent w _ fun r hr => nomatch hr
  | injected id count => exact hsilent _ _ fun r hr => nomatch hr
  | created new habsent =>
    refine becomes_put hstored .added (c.newborn new) (hnamed _) fun hid => ?_
    rw [hid] at hstored
    exact absurd (habsent.symm.trans hstored) nofun
  | patched o' hstored' p hkept =>
    refine becomes_put hstored .updated (c.renew (p.applyTo o')) (hnamed _) fun hid => ?_
    obtain rfl := hsame o' hstored' hid
    exact .patched p hkept
  | released o' hstored' p hgone =>
    refine becomes_remove hstored (c.renew (p.applyTo o')) (hnamed _) fun hid => ?_
    obtain rfl := hsame o' hstored' hid
    exact .released p hgone
  | edited o' hstored' spec =>
    refine becomes_put hstored .updated (c.renew ((ObjectPatch.setSpec spec none).applyTo o'))
      (hnamed _) fun hid => ?_
    obtain rfl := hsame o' hstored' hid
    exact .edited spec
  | removed o' hstored' hfree time =>
    refine becomes_remove hstored o' (fun r hr => nomatch hr) fun hid => ?_
    obtain rfl := hsame o' hstored' hid
    exact .removed hfree time
  | held o' hstored' hheld hterminating time => exact hsilent _ _ fun r hr => nomatch hr
  | marked o' hstored' hheld hactive time =>
    refine becomes_put hstored .updated (c.renew { o' with deletionRequestedAt := some time })
      (fun r hr => nomatch hr) fun hid => ?_
    obtain rfl := hsame o' hstored' hid
    exact .marked hheld hactive time

end Effects

/-- Only its creation brings an object into the store. -/
theorem Effect.appears {c c' : Cluster} {w : ClusterWrite}
    {answer : Except Error (Option ManagedObject)} (h : Effect c w answer c') {o : ManagedObject}
    {id : ResourceId} (habsent : c.get? id = none) (ho : c'.get? id = some o) :
    ∃ new, w = .create new ∧ new.id = id ∧ o = c.newborn new := by
  have hsame : ∀ o', c.get? o'.id = some o' → id ≠ o'.id := by
    rintro o' hstored rfl
    exact absurd (habsent.symm.trans hstored) nofun
  have hput : ∀ action new, id ≠ new.id → (c.put action new).get? id ≠ some o := by
    intro action new hid
    rw [get?_put_of_ne _ _ _ _ hid, habsent]
    exact nofun
  have hremove : ∀ old, id ≠ old.id → (c.remove old).get? id ≠ some o := by
    intro old hid
    rw [get?_remove_of_ne _ _ _ hid, habsent]
    exact nofun
  cases h with
  | failed w e injected => exact absurd (habsent.symm.trans ho) nofun
  | injected id count => exact absurd (habsent.symm.trans ho) nofun
  | created new =>
    by_cases hid : id = new.id
    · obtain rfl := hid
      have hself := c.get?_put_self .added (c.newborn new)
      exact ⟨new, rfl, rfl, Option.some.inj (ho.symm.trans hself)⟩
    · exact absurd ho (hput .added (c.newborn new) hid)
  | patched o' hstored p =>
    exact absurd ho (hput .updated (c.renew (p.applyTo o')) (hsame o' hstored))
  | released o' hstored p =>
    exact absurd ho (hremove (c.renew (p.applyTo o')) (hsame o' hstored))
  | edited o' hstored spec =>
    exact absurd ho (hput .updated (c.renew ((ObjectPatch.setSpec spec none).applyTo o'))
      (hsame o' hstored))
  | removed o' hstored => exact absurd ho (hremove o' (hsame o' hstored))
  | held o' => exact absurd (habsent.symm.trans ho) nofun
  | marked o' hstored _ _ time =>
    exact absurd ho (hput .updated (c.renew { o' with deletionRequestedAt := some time })
      (hsame o' hstored))

section Steps
variable {c : Cluster} {o : ManagedObject} {w : ClusterWrite}
  {answer : Except Error (Option ManagedObject)}

/-- What is left without finalizers while it is terminating is not stored any more. -/
theorem Becomes.isReleased {o' : ManagedObject} (h : Becomes c o w answer (some o'))
    (ho : o.isReleased = false) : o'.isReleased = false := by
  cases h with
  | kept => exact ho
  | patched p hkept => exact hkept
  | edited spec => exact ho
  | marked hheld hactive time =>
    unfold ManagedObject.isReleased at ho ⊢
    rw [show (c.renew { o with deletionRequestedAt := some time }).finalizers = o.finalizers
      from rfl, hheld, Bool.and_false]

theorem Becomes.removal (h : Becomes c o w answer none) (hheld : o.finalizers.isEmpty = false) :
    ∃ p r, w = .patch o.id o.version p ∧ answer = .ok (some r) ∧ o.isTerminating = true ∧
      r.isReleased = true := by
  cases h with
  | released p hgone =>
    exact ⟨p, _, rfl, rfl, (Bool.and_eq_true_iff.mp hgone).1, hgone⟩
  | removed hfree time => exact absurd (hheld.symm.trans hfree) nofun

/-- The time of the deletion request is not taken back, and not replaced. -/
theorem Becomes.deletionRequestedAt {o' : ManagedObject} (h : Becomes c o w answer (some o'))
    (ho : o.isTerminating = true) : o'.deletionRequestedAt = o.deletionRequestedAt := by
  cases h with
  | kept => rfl
  | patched p hkept => rfl
  | edited spec => rfl
  | marked hheld hactive time => exact absurd (hactive.symm.trans ho) nofun

theorem respecs_of_answer (hstored : c.get? o.id = some o) {r : ManagedObject}
    (hanswer : (w.perform c).1 = .ok (some r)) :
    c.respecs o.id w = (decide (r.id = o.id) && w.setsSpec && r.spec != o.spec) := by
  unfold respecs
  rw [hstored, hanswer]

theorem respecs_of_silence (hanswer : ∀ r, (w.perform c).1 = .ok (some r) → r.id ≠ o.id)
    (hstored : c.get? o.id = some o) : c.respecs o.id w = false := by
  unfold respecs
  rw [hstored]
  split
  · rename_i o' r ho' hr
    rw [decide_eq_false (hanswer r hr), Bool.false_and, Bool.false_and]
  · rfl

/-- The generation goes up with another spec, until it cannot. -/
theorem Becomes.generation {o' : ManagedObject} (h : Becomes c o w (w.perform c).1 (some o'))
    (hstored : c.get? o.id = some o) :
    o'.generation.toNat =
      min (o.generation.toNat + (c.respecs o.id w).toNat) (UInt64.size - 1) := by
  have hlt : o.generation.toNat < UInt64.size := o.generation.toNat_lt
  generalize hanswer : (w.perform c).1 = answer at h
  have hpatched : ∀ p : ObjectPatch, p.spec.isSome = w.setsSpec →
      answer = .ok (some (c.renew (p.applyTo o))) →
      (p.nextGeneration o).toNat =
        min (o.generation.toNat + (c.respecs o.id w).toNat) (UInt64.size - 1) := by
    intro p hspec hpatch
    have hself : decide ((c.renew (p.applyTo o)).id = o.id) = true := decide_eq_true rfl
    rw [respecs_of_answer hstored (hanswer.trans hpatch), hself, Bool.true_and, ← hspec]
    exact p.toNat_nextGeneration o
  have hunchanged : (∀ r, answer = .ok (some r) → r.id ≠ o.id) → o.generation.toNat =
      min (o.generation.toNat + (c.respecs o.id w).toNat) (UInt64.size - 1) := by
    intro hother
    rw [respecs_of_silence (hanswer ▸ hother) hstored]
    change _ = min (_ + 0) _
    omega
  cases h with
  | kept _ _ hother => exact hunchanged hother
  | patched p hkept => exact hpatched p rfl rfl
  | edited spec => exact hpatched (.setSpec spec none) rfl rfl
  | marked hheld hactive time => exact hunchanged fun r hr => nomatch hr

end Steps

/-- A terminating object is stored as long as finalizers hold it, and no longer. -/
theorem isReleased_of_stored (ws : List ClusterWrite) (id : ResourceId) (o : ManagedObject)
    (ho : (ofHistory ws).get? id = some o) : o.isReleased = false := by
  induction ws using List.reverseRecOn generalizing o with
  | nil => cases ho
  | append_singleton ws w ih =>
    have heffect := effect_next ws w
    cases hbefore : (ofHistory ws).get? id with
    | none =>
      obtain ⟨new, _, _, rfl⟩ := heffect.appears hbefore ho
      rfl
    | some old =>
      obtain rfl : old.id = id := keyed_ofHistory ws id old hbefore
      have hbecomes := heffect.becomes hbefore
      rw [ho] at hbecomes
      exact hbecomes.isReleased (ih old hbefore)

/-- The next write leaves a terminating object terminating since the same time, or removes it. -/
theorem terminating_next (ws : List ClusterWrite) (w : ClusterWrite) (id : ResourceId)
    (o o' : ManagedObject) (ho : (ofHistory ws).get? id = some o)
    (hterminating : o.isTerminating = true) (ho' : (ofHistory (ws ++ [w])).get? id = some o') :
    o'.deletionRequestedAt = o.deletionRequestedAt := by
  obtain rfl : o.id = id := keyed_ofHistory ws id o ho
  have hbecomes := (effect_next ws w).becomes ho
  rw [ho'] at hbecomes
  exact hbecomes.deletionRequestedAt hterminating

theorem isTerminating_congr {o o' : ManagedObject}
    (h : o'.deletionRequestedAt = o.deletionRequestedAt) : o'.isTerminating = o.isTerminating := by
  unfold ManagedObject.isTerminating ManagedObject.lifecycle
  rw [h]

/-- What becomes of a terminating object in the long run. -/
theorem terminating_since (ws more : List ClusterWrite) (id : ResourceId) (o : ManagedObject)
    (ho : (ofHistory ws).get? id = some o) (hterminating : o.isTerminating = true) :
    (∃ done, done <+: more ∧ (ofHistory (ws ++ done)).get? id = none) ∨
      ∃ o', (ofHistory (ws ++ more)).get? id = some o' ∧ o'.isTerminating = true ∧
        o'.deletionRequestedAt = o.deletionRequestedAt := by
  induction more using List.reverseRecOn with
  | nil => exact Or.inr ⟨o, (List.append_nil ws).symm ▸ ho, hterminating, rfl⟩
  | append_singleton more w ih =>
    rcases ih with ⟨done, hdone, hgone⟩ | ⟨old, hold, hstill, htime⟩
    · exact Or.inl ⟨done, hdone.trans (List.prefix_append more [w]), hgone⟩
    · rw [← List.append_assoc]
      cases hnext : (ofHistory (ws ++ more ++ [w])).get? id with
      | none =>
        refine Or.inl ⟨more ++ [w], List.prefix_refl _, ?_⟩
        rw [← List.append_assoc]
        exact hnext
      | some o' =>
        have hsame := terminating_next (ws ++ more) w id old o' hold hstill hnext
        exact Or.inr ⟨o', rfl, (isTerminating_congr hsame).trans hstill, hsame.trans htime⟩

/-- An object was absent, created then, and has been there ever since. -/
structure Lifetime (before : List ClusterWrite) (new : ManagedObject) (since : List ClusterWrite) :
    Prop where
  absent : (ofHistory before).get? new.id = none
  present : ∀ done, done <+: since →
    (ofHistory (before ++ .create new :: done)).get? new.id ≠ none

/-- The changes of the spec during the lifetime of an object. -/
def respecified (before : List ClusterWrite) (new : ManagedObject) (since : List ClusterWrite) :
    Nat :=
  (ofHistory (before ++ [.create new])).specChanges new.id since

theorem respecified_concat (before : List ClusterWrite) (new : ManagedObject)
    (since : List ClusterWrite) (w : ClusterWrite) :
    respecified before new (since ++ [w]) = respecified before new since +
      ((ofHistory (before ++ .create new :: since)).respecs new.id w).toNat := by
  rw [ofHistory_split before since]
  exact specChanges_concat _ new.id since w

theorem Lifetime.concat {before : List ClusterWrite} {new : ManagedObject}
    {since : List ClusterWrite} (h : Lifetime before new since) (w : ClusterWrite)
    (hpresent : (ofHistory (before ++ .create new :: (since ++ [w]))).get? new.id ≠ none) :
    Lifetime before new (since ++ [w]) := by
  refine ⟨h.absent, fun done hdone => ?_⟩
  rcases List.prefix_concat_iff.mp hdone with rfl | hdone
  · exact hpresent
  · exact h.present done hdone

/-- The generation of an object is one more than the changes of its spec in its lifetime. -/
theorem generation_counts (ws : List ClusterWrite) (id : ResourceId) (o : ManagedObject)
    (ho : (ofHistory ws).get? id = some o) :
    ∃ before new since, ws = before ++ .create new :: since ∧ new.id = id ∧
      Lifetime before new since ∧
        o.generation.toNat = min (1 + respecified before new since) (UInt64.size - 1) := by
  induction ws using List.reverseRecOn generalizing o with
  | nil => cases ho
  | append_singleton ws w ih =>
    have heffect := effect_next ws w
    have hpresent : (ofHistory (ws ++ [w])).get? id ≠ none := by
      rw [ho]
      exact nofun
    cases hbefore : (ofHistory ws).get? id with
    | none =>
      obtain ⟨new, rfl, rfl, rfl⟩ := heffect.appears hbefore ho
      refine ⟨ws, new, [], rfl, rfl, ⟨hbefore, fun done hdone => ?_⟩, rfl⟩
      rw [List.prefix_nil.mp hdone]
      exact hpresent
    | some old =>
      obtain ⟨before, new, since, rfl, rfl, hlifetime, hgeneration⟩ := ih old hbefore
      have hid : old.id = new.id := keyed_ofHistory _ new.id old hbefore
      have hsplit : before ++ .create new :: since ++ [w] =
          before ++ .create new :: (since ++ [w]) := List.append_assoc _ _ _
      rw [← hid] at hbefore ho
      have hbecomes := heffect.becomes hbefore
      rw [ho] at hbecomes
      have hnext := hbecomes.generation hbefore
      rw [hid] at hnext
      refine ⟨before, new, since ++ [w], hsplit, rfl, hlifetime.concat w (hsplit ▸ hpresent), ?_⟩
      rw [respecified_concat]
      omega

/-- What finalizers and generations tell of the objects in every history. -/
structure DeletionGated (ws : List ClusterWrite) : Prop where
  held : ∀ id o, (ofHistory ws).get? id = some o → o.isTerminating = true →
    o.finalizers.isEmpty = false
  /-- What a finalizer holds is removed only by a patch that takes the last finalizer from a
  terminating object. -/
  leaves : ∀ w id o, (ofHistory ws).get? id = some o → o.finalizers.isEmpty = false →
    (ofHistory (ws ++ [w])).get? id = none →
      ∃ p r, w = .patch id o.version p ∧ ((ofHistory ws).patch id o.version p).1 = .ok r ∧
        o.isTerminating = true ∧ r.finalizers.isEmpty = true
  /-- From then on an object is terminating, until it is removed. -/
  stays : ∀ more id o, (ofHistory ws).get? id = some o → o.isTerminating = true →
    (∃ done, done <+: more ∧ (ofHistory (ws ++ done)).get? id = none) ∨
      ∃ o', (ofHistory (ws ++ more)).get? id = some o' ∧ o'.isTerminating = true ∧
        o'.deletionRequestedAt = o.deletionRequestedAt
  generation : ∀ id o, (ofHistory ws).get? id = some o →
    ∃ before new since, ws = before ++ .create new :: since ∧ new.id = id ∧
      Lifetime before new since ∧
        o.generation.toNat = min (1 + respecified before new since) (UInt64.size - 1)

/-- In every history, a terminating object that is stored still has a finalizer, and what a
finalizer holds is removed only by a patch that takes the last one from a terminating object. Once
it is terminating an object stays so until it is removed. Its generation counts the changes of its
spec since it was created. -/
theorem deletion_gated (ws : List ClusterWrite) : DeletionGated ws := by
  refine ⟨fun id o ho hterminating => ?_, fun w id o ho hheld hgone => ?_,
    terminating_since ws, generation_counts ws⟩
  · have hstored := isReleased_of_stored ws id o ho
    unfold ManagedObject.isReleased at hstored
    rwa [hterminating, Bool.true_and] at hstored
  · obtain rfl : o.id = id := keyed_ofHistory ws id o ho
    have hbecomes := (effect_next ws w).becomes ho
    rw [hgone] at hbecomes
    obtain ⟨p, r, rfl, hanswer, hterminating, hr⟩ := hbecomes.removal hheld
    refine ⟨p, r, rfl, ?_, hterminating, (Bool.and_eq_true_iff.mp hr).2⟩
    change ((ofHistory ws).patch o.id o.version p).1.map some = .ok (some r) at hanswer
    cases hpatch : ((ofHistory ws).patch o.id o.version p).1 with
    | error e =>
      rw [hpatch] at hanswer
      cases hanswer
    | ok r' =>
      rw [hpatch] at hanswer
      cases hanswer
      rfl

/-- A room that is closed while a guest is in it, and refurnished before the guest leaves. -/
example :
    let room : ManagedObject :=
      { id := ⟨"Room", none, "south"⟩, spec := .null, finalizers := .ofList ["guest"] }
    let ws := [.create room, .delete room.id (.ofMillis 0), .editSpec room.id (.bool true)]
    ((ofHistory ws).get? room.id).map (fun o => (o.isTerminating, o.generation)) = some (true, 2) ∧
      (ofHistory (ws ++ [.patch room.id ⟨3⟩ (.withoutFinalizer "guest")])).get? room.id = none := by
  exact ⟨rfl, rfl⟩

end Cluster
end Reconciliation
