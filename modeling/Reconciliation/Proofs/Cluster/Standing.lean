import Reconciliation.Proofs.Cluster.Lifetime
import Reconciliation.Proofs.Cluster.Versions

/-!
What has become of an object since somebody read it. As long as nothing is committed about its
identity it stands as it was read. Once something is, whatever is stored there has a version that
nothing had before, so a patch that expects the version that was read is refused.
-/
namespace Reconciliation.Cluster

/-- The committed changes of the object of that identity, the newest first. -/
def changesOf (c : Cluster) (id : ResourceId) : List ChangeEvent :=
  c.log.filter fun e => e.object.id = id

/-- Nothing has been committed about the identity on the way to the later cluster. -/
structure Stands (c c' : Cluster) (id : ResourceId) : Prop where
  changes : c'.changesOf id = c.changesOf id
  stored : c'.get? id = c.get? id

/-- Something has been committed about the identity on the way to the later cluster. What is stored
there now has a version that was not taken from the counter by then. -/
structure Overtaken (c c' : Cluster) (id : ResourceId) : Prop where
  changes : (c.changesOf id).length < (c'.changesOf id).length
  renewed : ∀ o, c'.get? id = some o → c.lastVersion < o.version.value

theorem stands_self (c : Cluster) (id : ResourceId) : Stands c c id := ⟨rfl, rfl⟩

section Chain
variable {a b c : Cluster} {id : ResourceId}

theorem Stands.trans (h : Stands a b id) (h' : Stands b c id) : Stands a c id :=
  ⟨h'.changes.trans h.changes, h'.stored.trans h.stored⟩

theorem Stands.overtaken (h : Stands a b id) (hle : a.lastVersion ≤ b.lastVersion)
    (h' : Overtaken b c id) : Overtaken a c id := by
  refine ⟨?_, fun o ho => UInt64.lt_of_le_of_lt hle (h'.renewed o ho)⟩
  rw [← h.changes]
  exact h'.changes

theorem Overtaken.stands (h : Overtaken a b id) (h' : Stands b c id) : Overtaken a c id := by
  refine ⟨?_, fun o ho => h.renewed o (h'.stored.symm.trans ho)⟩
  rw [h'.changes]
  exact h.changes

theorem Overtaken.trans (h : Overtaken a b id) (hle : a.lastVersion ≤ b.lastVersion)
    (h' : Overtaken b c id) : Overtaken a c id :=
  ⟨Nat.lt_trans h.changes h'.changes,
    fun o ho => UInt64.lt_of_le_of_lt hle (h'.renewed o ho)⟩

end Chain

theorem lt_freshVersion (c : Cluster) (h : c.lastVersion.toNat < UInt64.size - 1) :
    c.lastVersion < c.freshVersion.value := by
  rw [UInt64.lt_iff_toNat_lt, c.toNat_freshVersion h]
  exact Nat.lt_succ_self _

/-- What is committed about one object leaves all other identities alone. -/
theorem standing_of_commit {c c' : Cluster} (e : ChangeEvent) (hlog : c'.log = e :: c.log)
    (id : ResourceId) (helsewhere : id ≠ e.object.id → c'.get? id = c.get? id)
    (hthere : ∀ o, c'.get? e.object.id = some o → c.lastVersion < o.version.value) :
    Stands c c' id ∨ Overtaken c c' id := by
  by_cases hid : id = e.object.id
  · subst hid
    refine Or.inr ⟨?_, hthere⟩
    simp [changesOf, hlog]
  · refine Or.inl ⟨?_, helsewhere hid⟩
    simp [changesOf, hlog, Ne.symm hid]

/-- A change leaves an identity alone, or commits something about it and stores nothing there but
an object of the fresh version. -/
theorem Change.standing {c c' : Cluster} (h : Change c c') (id : ResourceId)
    (hroom : c.lastVersion.toNat < UInt64.size - 1) : Stands c c' id ∨ Overtaken c c' id := by
  have hput : ∀ action new, new.version = c.freshVersion →
      Stands c (c.put action new) id ∨ Overtaken c (c.put action new) id := by
    intro action new hversion
    refine standing_of_commit ⟨action, new⟩ rfl id (get?_put_of_ne c action new id) fun o ho => ?_
    rw [get?_put_self] at ho
    rw [← Option.some.inj ho, hversion]
    exact c.lt_freshVersion hroom
  have hgone : ∀ old o, (c.remove old).get? old.id = some o → c.lastVersion < o.version.value := by
    intro old o ho
    rw [get?_remove_self] at ho
    cases ho
  cases h with
  | idle injected => exact Or.inl ⟨rfl, rfl⟩
  | added new hversion => exact hput .added new hversion
  | updated new old hversion => exact hput .updated new hversion
  | released new =>
    exact standing_of_commit ⟨.deleted, new⟩ rfl id (get?_remove_of_ne c new id) (hgone new)
  | removed old =>
    exact standing_of_commit ⟨.deleted, old⟩ rfl id (get?_remove_of_ne c old id) (hgone old)

/-- The counter goes up, as long as it has not run out. -/
theorem lastVersion_le (ws more : List ClusterWrite)
    (hroom : (assignments {} (ws ++ more)).length < UInt64.size - 1) :
    (ofHistory ws).lastVersion ≤ (ofHistory (ws ++ more)).lastVersion := by
  have hle := length_assignments_le ws more
  rw [UInt64.le_iff_toNat_le, (numbered_ofHistory ws (Nat.lt_of_le_of_lt hle hroom)).counted,
    (numbered_ofHistory (ws ++ more) hroom).counted]
  exact hle

/-- After any further writes an object stands as it was, or it is overtaken. -/
theorem stands_or_overtaken (ws more : List ClusterWrite) (id : ResourceId)
    (hroom : (assignments {} (ws ++ more)).length < UInt64.size - 1) :
    Stands (ofHistory ws) (ofHistory (ws ++ more)) id ∨
      Overtaken (ofHistory ws) (ofHistory (ws ++ more)) id := by
  induction more using List.reverseRecOn with
  | nil =>
    rw [List.append_nil]
    exact Or.inl (stands_self _ id)
  | append_singleton more w ih =>
    rw [← List.append_assoc] at hroom ⊢
    have hroom' := Nat.lt_of_le_of_lt (length_assignments_le (ws ++ more) [w]) hroom
    have hle := lastVersion_le ws more hroom'
    have hcounted := (numbered_ofHistory (ws ++ more) hroom').counted
    rw [← hcounted] at hroom'
    have hstep := (effect_next (ws ++ more) w).change.standing id hroom'
    rw [hcounted] at hroom'
    -- versions only go up, so what has been overtaken once never stands again
    rcases ih hroom' with hstands | hovertaken
    · exact hstep.imp hstands.trans (hstands.overtaken hle)
    · exact Or.inr (hstep.elim hovertaken.stands (hovertaken.trans hle))

/-- Where nothing is stored under the expected version, a patch fails and changes no object. -/
theorem patch_refused (c : Cluster) (id : ResourceId) (v : Version) (p : ObjectPatch)
    (hv : ∀ o, c.get? id = some o → o.version ≠ v) :
    ∃ e, (c.patch id v p).1 = .error e ∧ (c.patch id v p).2.objects = c.objects ∧
      (e.isNotFound = true → c.get? id = none) := by
  unfold patch
  split
  · exact ⟨_, rfl, rfl, fun h => by cases h⟩
  · unfold checkedPatch
    cases hget : c.get? id with
    | none => exact ⟨_, rfl, rfl, fun _ => rfl⟩
    | some o =>
      dsimp only
      rw [if_neg (hv o hget)]
      exact ⟨_, rfl, rfl, fun h => by cases h⟩

/-- A patch of an object that has been overtaken since it was read is refused. -/
theorem patch_of_overtaken (ws more : List ClusterWrite)
    (hroom : (assignments {} (ws ++ more)).length < UInt64.size - 1) (id : ResourceId)
    (o : ManagedObject) (hread : (ofHistory ws).get? id = some o)
    (h : (ofHistory (ws ++ more)).changesOf id ≠ (ofHistory ws).changesOf id) (p : ObjectPatch) :
    ∃ e, ((ofHistory (ws ++ more)).patch id o.version p).1 = .error e ∧
      ((ofHistory (ws ++ more)).patch id o.version p).2.objects =
        (ofHistory (ws ++ more)).objects ∧
      (e.isNotFound = true → (ofHistory (ws ++ more)).get? id = none) := by
  have hle := Nat.lt_of_le_of_lt (length_assignments_le ws more) hroom
  have hbounded := (versions_guard ws hle).bounded id o hread
  rcases stands_or_overtaken ws more id hroom with hstands | hovertaken
  · exact absurd hstands.changes h
  · refine patch_refused _ id o.version p fun o' ho' heq => ?_
    have hlt := UInt64.lt_of_le_of_lt hbounded (hovertaken.renewed o' ho')
    rw [heq] at hlt
    exact UInt64.lt_irrefl _ hlt

theorem stored_of_unchanged (ws more : List ClusterWrite)
    (hroom : (assignments {} (ws ++ more)).length < UInt64.size - 1) (id : ResourceId)
    (h : (ofHistory (ws ++ more)).changesOf id = (ofHistory ws).changesOf id) :
    (ofHistory (ws ++ more)).get? id = (ofHistory ws).get? id := by
  rcases stands_or_overtaken ws more id hroom with hstands | hovertaken
  · exact hstands.stored
  · exact absurd (congrArg List.length h) (Nat.ne_of_gt hovertaken.changes)

/-- A patch of an active object as it is stored goes through, unless a conflict is injected. -/
theorem patch_of_active (c : Cluster) (id : ResourceId) (o : ManagedObject)
    (hstored : c.get? id = some o) (hconflicts : c.conflictsLeft id = 0)
    (hactive : o.isTerminating = false) (p : ObjectPatch) :
    c.patch id o.version p =
      (.ok (c.renew (p.applyTo o)), c.put .updated (c.renew (p.applyTo o))) := by
  have hkept : c.settle (c.renew (p.applyTo o)) = c.put .updated (c.renew (p.applyTo o)) := by
    refine if_neg fun h => ?_
    have hterminating : o.isTerminating = true := (Bool.and_eq_true_iff.mp h).1
    rw [hactive] at hterminating
    cases hterminating
  unfold patch
  split
  · rename_i n hleft
    unfold conflictsLeft at hconflicts
    rw [hleft] at hconflicts
    cases hconflicts
  · unfold checkedPatch
    rw [hstored]
    dsimp only
    rw [if_pos rfl]
    exact congrArg (Prod.mk _) hkept

/-- A write makes the greatest generation greater by one at most. -/
theorem Effect.generation_le {c c' : Cluster} {w : ClusterWrite}
    {answer : Except Error (Option ManagedObject)} (heffect : Effect c w answer c')
    (hkeyed : c.Keyed) (n : Nat) (hn : ∀ id o, c.get? id = some o → o.generation.toNat ≤ n)
    (id : ResourceId) (o : ManagedObject) (ho : c'.get? id = some o) :
    o.generation.toNat ≤ n + 1 := by
  have hnext : ∀ (p : ObjectPatch) (old : ManagedObject), old.generation.toNat ≤ n →
      (p.nextGeneration old).toNat ≤ n + 1 := by
    intro p old hold
    have hone := Bool.toNat_le (p.spec.isSome && p.spec.getD old.spec != old.spec)
    rw [p.toNat_nextGeneration old]
    omega
  cases hget : c.get? id with
  | none =>
    obtain ⟨new, _, _, rfl⟩ := heffect.appears hget ho
    exact Nat.le_add_left 1 n
  | some old =>
    obtain rfl : old.id = id := hkeyed id old hget
    have hold := hn old.id old hget
    have hbecomes := heffect.becomes hget
    rw [ho] at hbecomes
    cases hbecomes with
    | kept => exact Nat.le_succ_of_le hold
    | patched p => exact hnext p old hold
    | edited spec => exact hnext (.setSpec spec none) old hold
    | marked => exact Nat.le_succ_of_le hold

/-- No generation passes the counter of versions. -/
theorem generation_le_lastVersion (ws : List ClusterWrite)
    (hroom : (assignments {} ws).length < UInt64.size - 1) (id : ResourceId) (o : ManagedObject)
    (ho : (ofHistory ws).get? id = some o) :
    o.generation.toNat ≤ (ofHistory ws).lastVersion.toNat := by
  induction ws using List.reverseRecOn generalizing id o with
  | nil => cases ho
  | append_singleton ws w ih =>
    have hroom' := Nat.lt_of_le_of_lt (length_assignments_le ws [w]) hroom
    have hle := UInt64.le_iff_toNat_le.mp (lastVersion_le ws [w] hroom)
    have heffect := effect_next ws w
    rcases heffect.change.stored id o ho with hrenewed | ⟨hstored, _⟩
    · have hcounted := (numbered_ofHistory ws hroom').counted
      have hnext := (numbered_ofHistory (ws ++ [w]) hroom).counted
      have hbound := heffect.generation_le (keyed_ofHistory ws) _ (ih hroom') id o ho
      rw [hnext, assignments_concat, hrenewed, List.length_append, ← hcounted]
      exact hbound
    · exact Nat.le_trans (ih hroom' id o hstored) hle

end Reconciliation.Cluster
