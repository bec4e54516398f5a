import Reconciliation.Bulk.Plan
import Reconciliation.Proofs.Sorted.Lookup
import Mathlib.Data.List.Nodup

/-!
The steps of a bulk plan. A plan between two maps has at most one step for a key: a member that is
not wanted is deleted, a missing one is created, and one that does not agree with what is wanted
is updated. Where both maps have the same keys and agree, there is nothing to do.
-/
namespace Reconciliation

/-- The work on one member of a bulk dependent. -/
inductive BulkStep (R : Type) where
  | delete (key : String) (actual : R)
  | create (key : String) (wanted : R)
  | update (key : String) (actual wanted : R)

namespace BulkStep
variable {I : Interface} {R : Type}

def key : BulkStep R → String
  | delete key _ | create key _ | update key _ _ => key

def perform (w : BulkWrites I R) : BulkStep R → Action I (Except Error Unit)
  | delete key actual => w.delete key actual
  | create key wanted => w.create key wanted
  | update key actual wanted => w.update key actual wanted

end BulkStep

namespace BulkPlan
variable {I : Interface} {R : Type}

/-- The steps in the order of their work. -/
def steps (p : BulkPlan R) : List (BulkStep R) :=
  p.delete.map (fun e => .delete e.1 e.2) ++ p.create.map (fun e => .create e.1 e.2)
    ++ p.update.map (fun e => .update e.1 e.2.1 e.2.2)

theorem members_eq_map_steps (w : BulkWrites I R) (p : BulkPlan R) :
    p.members w = p.steps.map (·.perform w) := by
  unfold members steps
  rw [List.map_append, List.map_append, List.map_map, List.map_map, List.map_map]
  rfl

/-- The step that brings a member from its actual to its wanted state. -/
inductive Bridges (agrees : R → R → Bool) (actual desired : SortedMap String R) :
    BulkStep R → Prop
  | delete (key : String) (a : R) (hactual : actual.get? key = some a)
      (hdesired : desired.get? key = none) : Bridges agrees actual desired (.delete key a)
  | create (key : String) (b : R) (hactual : actual.get? key = none)
      (hdesired : desired.get? key = some b) : Bridges agrees actual desired (.create key b)
  | update (key : String) (a b : R) (hactual : actual.get? key = some a)
      (hdesired : desired.get? key = some b) (hdiffer : agrees a b = false) :
      Bridges agrees actual desired (.update key a b)

section Between
variable (agrees : R → R → Bool) (actual desired : SortedMap String R)

theorem mem_filter_missing_iff (m other : SortedMap String R) (e : String × R) :
    (e ∈ m.entries.filter fun e => !other.contains e.1) ↔
      m.get? e.1 = some e.2 ∧ other.get? e.1 = none := by
  rw [List.mem_filter, m.get?_eq_some_iff]
  simp [SortedMap.contains]

/-- Updated are the members that are wanted and do not agree. -/
theorem mem_update_between_iff (key : String) (a b : R) :
    (key, a, b) ∈ (between agrees actual desired).update ↔
      actual.get? key = some a ∧ desired.get? key = some b ∧ agrees a b = false := by
  unfold between
  rw [List.mem_filterMap]
  constructor
  · rintro ⟨⟨key', a'⟩, hentry, heq⟩
    rw [← actual.get?_eq_some_iff] at hentry
    dsimp only at heq
    split at heq
    · rename_i wanted hwanted
      split at heq
      · cases heq
      · rename_i hdiffer
        cases heq
        exact ⟨hentry, hwanted, Bool.eq_false_iff.mpr hdiffer⟩
    · cases heq
  · rintro ⟨hactual, hdesired, hdiffer⟩
    refine ⟨(key, a), (actual.get?_eq_some_iff key a).mp hactual, ?_⟩
    dsimp only
    rw [hdesired]
    dsimp only
    rw [hdiffer]
    rfl

/-- The steps of a plan are those that bridge a difference of the maps. -/
theorem mem_steps_between_iff (s : BulkStep R) :
    s ∈ (between agrees actual desired).steps ↔ Bridges agrees actual desired s := by
  unfold steps
  rw [List.mem_append, List.mem_append, List.mem_map, List.mem_map, List.mem_map]
  constructor
  · rintro ((⟨e, he, rfl⟩ | ⟨e, he, rfl⟩) | ⟨⟨key, a, b⟩, he, rfl⟩)
    · obtain ⟨hactual, hdesired⟩ := (mem_filter_missing_iff actual desired e).mp he
      exact .delete e.1 e.2 hactual hdesired
    · obtain ⟨hdesired, hactual⟩ := (mem_filter_missing_iff desired actual e).mp he
      exact .create e.1 e.2 hactual hdesired
    · obtain ⟨hactual, hdesired, hdiffer⟩ :=
        (mem_update_between_iff agrees actual desired key a b).mp he
      exact .update key a b hactual hdesired hdiffer
  · intro h
    cases h with
    | delete key a hactual hdesired =>
      have he := (mem_filter_missing_iff actual desired (key, a)).mpr ⟨hactual, hdesired⟩
      exact Or.inl (Or.inl ⟨_, he, rfl⟩)
    | create key b hactual hdesired =>
      have he := (mem_filter_missing_iff desired actual (key, b)).mpr ⟨hdesired, hactual⟩
      exact Or.inl (Or.inr ⟨_, he, rfl⟩)
    | update key a b hactual hdesired hdiffer =>
      have he := (mem_update_between_iff agrees actual desired key a b).mpr
        ⟨hactual, hdesired, hdiffer⟩
      exact Or.inr ⟨_, he, rfl⟩

/-- A key decides on its step. -/
theorem Bridges.eq_of_key {s s' : BulkStep R} (h : Bridges agrees actual desired s)
    (h' : Bridges agrees actual desired s') (hkey : s.key = s'.key) : s = s' := by
  cases h <;> cases h' <;> simp_all [BulkStep.key]

theorem nodup_steps_between : (between agrees actual desired).steps.Nodup := by
  have hupdate : (between agrees actual desired).update.Nodup := by
    refine actual.nodup_entries.filterMap fun e e' b hb hb' => ?_
    grind
  unfold steps
  refine List.Nodup.append (List.Nodup.append ?_ ?_ ?_) ?_ ?_
  · exact (actual.nodup_entries.filter _).map fun e e' heq => by grind
  · exact (desired.nodup_entries.filter _).map fun e e' heq => by grind
  · intro s hdelete hcreate
    grind
  · exact hupdate.map fun e e' heq => by grind
  · intro s hbefore hupdate
    grind

/-- No member is worked on twice. -/
theorem nodup_keys_between : ((between agrees actual desired).steps.map (·.key)).Nodup := by
  refine List.Nodup.map_on (fun s hs s' hs' hkey => ?_)
    (nodup_steps_between agrees actual desired)
  rw [mem_steps_between_iff] at hs hs'
  exact hs.eq_of_key agrees actual desired hs' hkey

end Between

section Run
variable {σ : Type} {answer : (c : I.Call) → σ → I.Reply c × σ} {s s' : σ}

theorem conclude_of_ok (name : String) (p : BulkPlan R) (results : List (Except Error Unit))
    (hok : ∀ r ∈ results, r = .ok ()) : p.conclude name results = .ok p.operations := by
  have hnone : failures name p.keys results = [] := by
    refine List.filterMap_eq_nil_iff.mpr fun e he => ?_
    obtain ⟨key, r⟩ := e
    obtain rfl := hok r (List.of_mem_zip he).2
    rfl
  unfold conclude
  rw [hnone]

/-- A plan all of whose steps succeed. -/
theorem run_apply (name : String) (w : BulkWrites I R) (p : BulkPlan R)
    (results : List (Except Error Unit))
    (hrun : Task.runGroup answer (p.steps.map (·.perform w)) s = (results, s'))
    (hok : ∀ r ∈ results, r = .ok ()) :
    (p.apply name w).run answer s = (.ok p.operations, s') := by
  unfold apply
  rw [members_eq_map_steps, Task.run, hrun]
  exact congrArg (·, s') (p.conclude_of_ok name results hok)

end Run
end BulkPlan
end Reconciliation
