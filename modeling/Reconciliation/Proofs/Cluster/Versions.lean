import Reconciliation.Proofs.Cluster.History
import Mathlib.Data.List.Nodup

/-!
Versions and the patches that they guard. A version is assigned once in a history, and what is
stored under the identity of its object goes on to another version with the next change. So a
patch that is checked against a version meets the object exactly as that version was assigned to
it, however often the identity has been deleted and used again.
-/
namespace Reconciliation.Cluster

/-- The object that has got a new version on the way to the next cluster: a version was taken from
the counter, and the object is committed under it. -/
def renewed? (c c' : Cluster) : Option ManagedObject :=
  if c'.lastVersion = c.lastVersion then none else c'.log.head?.map (·.object)

/-- The objects that writes give new versions, in the order of the writes. -/
def assignments (c : Cluster) : List ClusterWrite → List ManagedObject
  | [] => []
  | w :: ws => (c.renewed? (w.perform c).2).toList ++ assignments (w.perform c).2 ws

theorem assignments_append (c : Cluster) (ws more : List ClusterWrite) :
    c.assignments (ws ++ more) = c.assignments ws ++ (c.after ws).assignments more := by
  induction ws generalizing c with
  | nil => rfl
  | cons w rest ih =>
    rw [List.cons_append, assignments, assignments, ih, List.append_assoc]
    rfl

theorem assignments_concat (ws : List ClusterWrite) (w : ClusterWrite) :
    assignments {} (ws ++ [w]) =
      assignments {} ws ++ ((ofHistory ws).renewed? (ofHistory (ws ++ [w]))).toList := by
  rw [assignments_append, ofHistory_concat]
  exact congrArg (assignments {} ws ++ ·) (List.append_nil _)

theorem length_assignments_le (ws more : List ClusterWrite) :
    (assignments {} ws).length ≤ (assignments {} (ws ++ more)).length := by
  rw [assignments_append, List.length_append]
  exact Nat.le_add_right _ _

theorem renewed?_of_succ {c c' : Cluster} (e : ChangeEvent)
    (hversion : c'.lastVersion = c.lastVersion + 1) (hlog : c'.log = e :: c.log) :
    c.renewed? c' = some e.object := by
  have hne : c.lastVersion + 1 ≠ c.lastVersion := by simp
  unfold renewed?
  rw [hversion, if_neg hne, hlog]
  rfl

/-- A change takes at most one version from the counter, for the object that it commits. -/
theorem Change.renewed {c c' : Cluster} (h : Change c c') :
    (c.renewed? c' = none ∧ c'.lastVersion = c.lastVersion) ∨
      ∃ o, c.renewed? c' = some o ∧ o.version = c.freshVersion ∧
        c'.lastVersion = c.lastVersion + 1 := by
  cases h with
  | idle injected => exact Or.inl ⟨if_pos rfl, rfl⟩
  | added o hversion => exact Or.inr ⟨o, renewed?_of_succ ⟨.added, o⟩ rfl rfl, hversion, rfl⟩
  | updated o old hversion =>
    exact Or.inr ⟨o, renewed?_of_succ ⟨.updated, o⟩ rfl rfl, hversion, rfl⟩
  | released o old hversion =>
    exact Or.inr ⟨o, renewed?_of_succ ⟨.deleted, o⟩ rfl rfl, hversion, rfl⟩
  | removed o => exact Or.inl ⟨if_pos rfl, rfl⟩

/-- The counter and the versions that were assigned so far. -/
structure Numbered (ws : List ClusterWrite) : Prop where
  counted : (ofHistory ws).lastVersion.toNat = (assignments {} ws).length
  bounded : ∀ a ∈ assignments {} ws, a.version.value ≤ (ofHistory ws).lastVersion
  increasing : (assignments {} ws).Pairwise fun a b => a.version.value < b.version.value

theorem numbered_nil : Numbered [] := ⟨rfl, fun _ h => absurd h List.not_mem_nil, .nil⟩

theorem toNat_freshVersion (c : Cluster) (h : c.lastVersion.toNat < UInt64.size - 1) :
    c.freshVersion.value.toNat = c.lastVersion.toNat + 1 := by
  have hvalue := toNat_saturatingSucc c.lastVersion
  change (saturatingSucc c.lastVersion).toNat = _
  have hsize : UInt64.size - 1 = 0xFFFFFFFFFFFFFFFF := rfl
  omega

theorem Numbered.lt_fresh {ws : List ClusterWrite} (h : Numbered ws)
    (hroom : (assignments {} ws).length < UInt64.size - 1) :
    ∀ a ∈ assignments {} ws, a.version.value < (ofHistory ws).freshVersion.value := by
  intro a ha
  have hle := UInt64.le_iff_toNat_le.mp (h.bounded a ha)
  rw [← h.counted] at hroom
  have hfresh := (ofHistory ws).toNat_freshVersion hroom
  rw [UInt64.lt_iff_toNat_lt]
  omega

/-- One more write assigns the next version, or none. -/
theorem Numbered.concat {ws : List ClusterWrite} (h : Numbered ws) (w : ClusterWrite)
    (hroom : (assignments {} ws).length < UInt64.size - 1) : Numbered (ws ++ [w]) := by
  have hassignments := assignments_concat ws w
  rcases (effect_next ws w).change.renewed with ⟨hnone, hversion⟩ | ⟨o, ho, hfresh, hversion⟩
  · rw [hnone, Option.toList_none, List.append_nil] at hassignments
    refine ⟨?_, ?_, ?_⟩
    · rw [hassignments, hversion]
      exact h.counted
    · rw [hassignments, hversion]
      exact h.bounded
    · rw [hassignments]
      exact h.increasing
  · rw [ho, Option.toList_some] at hassignments
    have hlt := h.lt_fresh hroom
    rw [← hfresh] at hlt
    rw [← h.counted] at hroom
    have hfreshNat := (ofHistory ws).toNat_freshVersion hroom
    rw [← hfresh] at hfreshNat
    have hlast : (ofHistory (ws ++ [w])).lastVersion = o.version.value := by
      rw [hversion, ← UInt64.toNat_inj, hfreshNat, UInt64.toNat_add, UInt64.toNat_one]
      have hsize : UInt64.size - 1 < 2 ^ 64 := by decide
      exact Nat.mod_eq_of_lt (by omega)
    refine ⟨?_, fun a ha => ?_, ?_⟩
    · rw [hassignments, List.length_append, List.length_singleton, ← h.counted, hlast, hfreshNat]
    · rw [hlast]
      rw [hassignments, List.mem_append, List.mem_singleton] at ha
      rcases ha with ha | rfl
      · exact UInt64.le_of_lt (hlt a ha)
      · exact UInt64.le_refl _
    · rw [hassignments, List.pairwise_append]
      refine ⟨h.increasing, List.pairwise_singleton _ _, fun a ha b hb => ?_⟩
      rw [List.mem_singleton.mp hb]
      exact hlt a ha

theorem numbered_ofHistory (ws : List ClusterWrite)
    (hroom : (assignments {} ws).length < UInt64.size - 1) : Numbered ws := by
  induction ws using List.reverseRecOn with
  | nil => exact numbered_nil
  | append_singleton ws w ih =>
    have hroom' := Nat.lt_of_le_of_lt (length_assignments_le ws [w]) hroom
    exact (ih hroom').concat w hroom'

/-- The object stays stored under the identity, and nothing is committed about it. -/
structure Untouched (c : Cluster) (id : ResourceId) (o : ManagedObject) (ws : List ClusterWrite) :
    Prop where
  stored : ∀ done, done <+: ws → (c.after done).get? id = some o
  silent : ∃ newer, (c.after ws).log = newer ++ c.log ∧ ∀ e ∈ newer, e.object.id ≠ id

/-- The object was given its version by one of the writes, and no write since has touched it. -/
def Current (ws : List ClusterWrite) (id : ResourceId) (o : ManagedObject) : Prop :=
  ∃ before w since, ws = before ++ w :: since ∧
    (ofHistory before).renewed? (ofHistory (before ++ [w])) = some o ∧
    (ofHistory (before ++ [w])).Untouched id o since

/-- What is stored after a change is the object that got a new version, or the change was about
another identity. -/
theorem Change.stored {c c' : Cluster} (h : Change c c') (id : ResourceId) (o : ManagedObject)
    (ho : c'.get? id = some o) :
    c.renewed? c' = some o ∨
      c.get? id = some o ∧ ∃ newer, c'.log = newer ++ c.log ∧ ∀ e ∈ newer, e.object.id ≠ id := by
  have hput : ∀ action new, (c.put action new).get? id = some o →
      c.renewed? (c.put action new) = some o ∨ c.get? id = some o ∧
        ∃ newer, (c.put action new).log = newer ++ c.log ∧ ∀ e ∈ newer, e.object.id ≠ id := by
    intro action new hnew
    by_cases hid : id = new.id
    · subst hid
      rw [get?_put_self] at hnew
      rw [← hnew]
      exact Or.inl (renewed?_of_succ ⟨action, new⟩ rfl rfl)
    · rw [get?_put_of_ne _ _ _ _ hid] at hnew
      refine Or.inr ⟨hnew, [⟨action, new⟩], rfl, fun e he => ?_⟩
      rw [List.mem_singleton.mp he]
      exact Ne.symm hid
  have hremove : ∀ new, (c.remove new).get? id = some o → c.get? id = some o ∧
      ∃ newer, (c.remove new).log = newer ++ c.log ∧ ∀ e ∈ newer, e.object.id ≠ id := by
    intro new hnew
    by_cases hid : id = new.id
    · subst hid
      rw [get?_remove_self] at hnew
      cases hnew
    · rw [get?_remove_of_ne _ _ _ hid] at hnew
      refine ⟨hnew, [⟨.deleted, new⟩], rfl, fun e he => ?_⟩
      rw [List.mem_singleton.mp he]
      exact Ne.symm hid
  cases h with
  | idle injected => exact Or.inr ⟨ho, [], rfl, fun _ h => absurd h List.not_mem_nil⟩
  | added new => exact hput .added new ho
  | updated new => exact hput .updated new ho
  | released new => exact Or.inr (hremove new ho)
  | removed new => exact Or.inr (hremove new ho)

theorem untouched_nil (c : Cluster) (id : ResourceId) (o : ManagedObject)
    (h : c.get? id = some o) : c.Untouched id o [] := by
  refine ⟨fun done hdone => ?_, [], rfl, fun _ h => absurd h List.not_mem_nil⟩
  rw [List.prefix_nil.mp hdone]
  exact h

theorem Untouched.concat {c : Cluster} {id : ResourceId} {o : ManagedObject}
    {ws : List ClusterWrite} (h : c.Untouched id o ws) (w : ClusterWrite)
    (hstored : (c.after (ws ++ [w])).get? id = some o)
    (hsilent : ∃ newer, (c.after (ws ++ [w])).log = newer ++ (c.after ws).log ∧
      ∀ e ∈ newer, e.object.id ≠ id) : c.Untouched id o (ws ++ [w]) := by
  obtain ⟨newer, hlog, hnewer⟩ := h.silent
  obtain ⟨last, hlast, hother⟩ := hsilent
  refine ⟨fun done hdone => ?_, last ++ newer, ?_, fun e he => ?_⟩
  · rcases List.prefix_concat_iff.mp hdone with rfl | hdone
    · exact hstored
    · exact h.stored done hdone
  · rw [hlast, hlog, List.append_assoc]
  · rcases List.mem_append.mp he with he | he
    · exact hother e he
    · exact hnewer e he

/-- Whatever is stored is as it was when its version was assigned. -/
theorem current_of_stored (ws : List ClusterWrite) (id : ResourceId) (o : ManagedObject)
    (h : (ofHistory ws).get? id = some o) : Current ws id o := by
  induction ws using List.reverseRecOn with
  | nil => cases h
  | append_singleton ws w ih =>
    rcases (effect_next ws w).change.stored id o h with hrenewed | ⟨hstored, hsilent⟩
    · exact ⟨ws, w, [], rfl, hrenewed, untouched_nil _ id o h⟩
    · obtain ⟨before, w', since, rfl, hrenewed, huntouched⟩ := ih hstored
      have hsplit : before ++ w' :: since ++ [w] = before ++ w' :: (since ++ [w]) :=
        List.append_assoc _ _ _
      rw [hsplit] at h hsilent ⊢
      rw [ofHistory_split] at h
      rw [ofHistory_split _ (since ++ [w]), ofHistory_split _ since] at hsilent
      exact ⟨before, w', since ++ [w], rfl, hrenewed, huntouched.concat w h hsilent⟩

theorem Current.mem_assignments {ws : List ClusterWrite} {id : ResourceId} {o : ManagedObject}
    (h : Current ws id o) : o ∈ assignments {} ws := by
  obtain ⟨before, w, since, rfl, hrenewed, _⟩ := h
  rw [List.append_cons, assignments_append, assignments_concat, hrenewed]
  exact List.mem_append_left _ (List.mem_append_right _ List.mem_cons_self)

/-- Different objects have been given different versions. -/
theorem Numbered.eq_of_version {ws : List ClusterWrite} (h : Numbered ws) (a b : ManagedObject)
    (ha : a ∈ assignments {} ws) (hb : b ∈ assignments {} ws) (hversion : a.version = b.version) :
    a = b := by
  have hnodup : ((assignments {} ws).map (·.version)).Nodup := by
    refine List.pairwise_map.mpr (h.increasing.imp fun hlt heq => ?_)
    rw [heq] at hlt
    exact absurd hlt (UInt64.lt_irrefl _)
  exact List.inj_on_of_nodup_map hnodup ha hb hversion

/-- A successful patch makes its result of what is stored, under a version that is greater than
all before. -/
structure Supersedes (ws : List ClusterWrite) (o : ManagedObject) (p : ObjectPatch)
    (r : ManagedObject) : Prop where
  outcome : r = { p.applyTo o with version := r.version }
  fresh : ∀ a ∈ assignments {} ws, a.version.value < r.version.value
  stored : (ofHistory (ws ++ [.patch o.id o.version p])).get? o.id =
    if r.isReleased then none else some r

/-- How versions guard the objects of a history. -/
structure Guarded (ws : List ClusterWrite) : Prop where
  distinct : ∀ id id' o o', (ofHistory ws).get? id = some o → (ofHistory ws).get? id' = some o' →
    o.version = o'.version → id = id'
  bounded : ∀ id o, (ofHistory ws).get? id = some o →
    o.version.value ≤ (ofHistory ws).lastVersion
  increasing : (assignments {} ws).Pairwise fun a b => a.version.value < b.version.value
  /-- A patch succeeds only on the object to which the version was assigned, if nothing has
  happened to it since. -/
  current : ∀ id v p r, ((ofHistory ws).patch id v p).1 = .ok r →
    ∃ o, o.id = id ∧ o.version = v ∧ (ofHistory ws).get? id = some o ∧ Current ws id o ∧
      Supersedes ws o p r
  /-- And it does succeed there, unless a conflict is injected. -/
  accepted : ∀ id o p, (ofHistory ws).get? id = some o → (ofHistory ws).conflictsLeft id = 0 →
    ∃ r, ((ofHistory ws).patch id o.version p).1 = .ok r

/-- As long as the counter has not run out, versions guard the objects. Each is assigned once, later
ones are greater, and no two stored objects share one. But for injected conflicts, a patch goes
through just where the object with the version that it expects is stored as it was when the version
was assigned. -/
theorem versions_guard (ws : List ClusterWrite)
    (hroom : (assignments {} ws).length < UInt64.size - 1) : Guarded ws := by
  have hnumbered := numbered_ofHistory ws hroom
  have hassigned := fun id o h => (current_of_stored ws id o h).mem_assignments
  refine ⟨fun id id' o o' ho ho' hversion => ?_, fun id o ho => ?_, hnumbered.increasing,
    fun id v p r hr => ?_, fun id o p ho hconflicts => ?_⟩
  · obtain rfl := hnumbered.eq_of_version o o' (hassigned id o ho) (hassigned id' o' ho') hversion
    exact (keyed_ofHistory ws id o ho).symm.trans (keyed_ofHistory ws id' o ho')
  · exact hnumbered.bounded o (hassigned id o ho)
  · have heffect := effect_next ws (.patch id v p)
    have hanswer : ((ClusterWrite.patch id v p).perform (ofHistory ws)).1 = .ok (some r) :=
      congrArg (Except.map some) hr
    rw [hanswer] at heffect
    obtain ⟨o, rfl, rfl, hstored, rfl, hnext⟩ := heffect.of_patch
    exact ⟨o, rfl, rfl, hstored, current_of_stored ws o.id o hstored, rfl,
      hnumbered.lt_fresh hroom, hnext⟩
  · exact ⟨_, (ofHistory ws).patch_of_current id o ho hconflicts p⟩

/-- A room that is booked under the name of one that was given up. -/
def room : ManagedObject where
  id := ⟨"Room", none, "north"⟩
  spec := .null

def rebooked : List ClusterWrite :=
  [.create room, .delete room.id (.ofMillis 0), .create room]

/-- A reader of the first room cannot change the second one, a reader of the second one can. -/
theorem versions_guard_rebooked :
    (assignments {} rebooked).length < UInt64.size - 1 ∧
      ((ofHistory rebooked).patch room.id ⟨1⟩ (.setStatus .null)).1 =
        .error (.conflict room.id ⟨1⟩ ⟨2⟩) ∧
      ∃ r o, ((ofHistory rebooked).patch room.id ⟨2⟩ (.setStatus .null)).1 = .ok r ∧
        o.version = ⟨2⟩ ∧ Current rebooked room.id o ∧
          r = { o with version := ⟨3⟩, status := some .null } := by
  have hroom : (assignments {} rebooked).length < UInt64.size - 1 := by decide
  have hguarded := versions_guard rebooked hroom
  obtain ⟨r, hr⟩ : ∃ r, ((ofHistory rebooked).patch room.id ⟨2⟩ (.setStatus .null)).1 = .ok r :=
    ⟨_, rfl⟩
  obtain ⟨o, _, hversion, hstored, hcurrent, _⟩ := hguarded.current room.id ⟨2⟩ _ r hr
  cases hstored
  cases hr
  exact ⟨hroom, rfl, _, _, rfl, hversion, hcurrent, rfl⟩

end Reconciliation.Cluster
