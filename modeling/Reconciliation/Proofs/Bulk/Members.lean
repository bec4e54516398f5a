import Reconciliation.Dependent.Adapter
import Reconciliation.Proofs.Bulk.Difference
import Reconciliation.Proofs.Task.Hearing

/-!
What becomes of the members of a bulk dependent. The work on a member can be heard to begin and to
end. Whatever fails and whatever takes how long, every step of a plan is worked on once, and the
value tells of all of them: how many there were of each kind if none failed, and otherwise which
ones failed and why.
-/
namespace Reconciliation

section
variable {I : Interface} {R N : Type}

/-- The same writes with notices before and after the work on each member. -/
def BulkWrites.reported (before : BulkStep R → List N)
    (after : BulkStep R → Except Error Unit → List N) (w : BulkWrites I R) :
    BulkWrites (I.noticing N) R where
  create key wanted :=
    (w.create key wanted).reported (before (.create key wanted)) (after (.create key wanted))
  update key actual wanted := (w.update key actual wanted).reported
    (before (.update key actual wanted)) (after (.update key actual wanted))
  delete key actual :=
    (w.delete key actual).reported (before (.delete key actual)) (after (.delete key actual))

theorem BulkStep.perform_reported (before : BulkStep R → List N)
    (after : BulkStep R → Except Error Unit → List N) (w : BulkWrites I R) (step : BulkStep R) :
    step.perform (w.reported before after) =
      (step.perform w).reported (before step) (after step) := by
  cases step <;> rfl

end

namespace BulkPlan
variable {I : Interface} {R N : Type}

/-- The steps with what became of each. -/
abbrev Outcomes (R : Type) := List (BulkStep R × Except Error Unit)

/-- The steps that failed, with their own errors. -/
def failed (outcomes : Outcomes R) : List (BulkStep R × Error) :=
  outcomes.filterMap fun
    | (step, .error e) => some (step, e)
    | (_, .ok _) => none

theorem mem_failed_iff (outcomes : Outcomes R) (step : BulkStep R) (e : Error) :
    (step, e) ∈ failed outcomes ↔ (step, .error e) ∈ outcomes := by
  unfold failed
  rw [List.mem_filterMap]
  constructor
  · rintro ⟨⟨step', _ | _⟩, hmem, heq⟩
    · cases heq
      exact hmem
    · cases heq
  · exact fun h => ⟨_, h, rfl⟩

theorem failed_eq_nil_iff (outcomes : Outcomes R) :
    failed outcomes = [] ↔ ∀ e ∈ outcomes, e.2 = .ok () := by
  unfold failed
  rw [List.filterMap_eq_nil_iff]
  refine forall₂_congr fun e _ => ?_
  obtain ⟨step, error | ⟨⟩⟩ := e <;> simp

/-- The failures of a plan are those of its steps, under the keys of the members. -/
theorem failures_eq_map_failed (name : String) (p : BulkPlan R) (outcomes : Outcomes R)
    (hsteps : outcomes.map (·.1) = p.steps) :
    failures name p.keys (outcomes.map (·.2)) =
      (failed outcomes).map fun e => (name ++ "[" ++ e.1.key ++ "]", e.2) := by
  rw [keys_eq_map_steps, ← hsteps, List.map_map]
  clear hsteps
  unfold failures failed
  induction outcomes with
  | nil => rfl
  | cons e rest ih =>
    obtain ⟨step, error | ok⟩ := e
    · exact congrArg ((name ++ "[" ++ step.key ++ "]", error) :: ·) ih
    · exact ih

/-- A value that tells of all steps. -/
structure Concludes (name : String) (p : BulkPlan R) (outcomes : Outcomes R)
    (v : Except Error Operations) : Prop where
  ok_iff : (∃ operations, v = .ok operations) ↔ ∀ e ∈ outcomes, e.2 = .ok ()
  counts : ∀ operations, v = .ok operations →
    operations = ⟨p.create.length, p.update.length, p.delete.length, p.unchanged.length⟩
  own : ∀ step e, failed outcomes = [(step, e)] → v = .error e
  several : 2 ≤ (failed outcomes).length → v = .error (.dependents
    ((failed outcomes).map fun e => (name ++ "[" ++ e.1.key ++ "]", e.2)))

/-- What is concluded tells the number of steps of each kind, or all failures under their labels. -/
theorem concludes (name : String) (p : BulkPlan R) (outcomes : Outcomes R)
    (hsteps : outcomes.map (·.1) = p.steps) :
    Concludes name p outcomes (p.conclude name (outcomes.map (·.2))) := by
  unfold conclude
  rw [failures_eq_map_failed name p outcomes hsteps]
  have hnone := failed_eq_nil_iff outcomes
  rcases hfailed : failed outcomes with _ | ⟨⟨step, e⟩, _ | ⟨e', rest⟩⟩
  · refine ⟨iff_of_true ⟨_, rfl⟩ (hnone.mp hfailed), fun _ h => ?_, fun _ _ h => ?_, fun h => ?_⟩
    · cases h
      rfl
    · cases hfailed.symm.trans h
    · rw [hfailed] at h
      cases h
  · rw [hfailed] at hnone
    refine ⟨iff_of_false nofun fun hok => (nomatch hnone.mpr hok), nofun, fun _ _ h => ?_,
      fun h => ?_⟩
    · cases hfailed.symm.trans h
      rfl
    · rw [hfailed] at h
      exact absurd h (by simp)
  · rw [hfailed] at hnone
    refine ⟨iff_of_false nofun fun hok => (nomatch hnone.mpr hok), nofun, fun _ _ h => ?_,
      fun _ => ?_⟩
    · cases hfailed.symm.trans h
    · rw [hfailed]
      rfl

section
variable (before : BulkStep R → List N) (after : BulkStep R → Except Error Unit → List N)

theorem muted_apply_reported (name : String) (w : BulkWrites I R) (p : BulkPlan R) :
    (p.apply name (w.reported before after)).muted = p.apply name w := by
  unfold apply
  rw [members_eq_map_steps, members_eq_map_steps]
  refine congrArg (Task.group · _) ?_
  rw [List.map_map]
  refine List.map_congr_left fun step _ => ?_
  rw [Function.comp_apply, BulkStep.perform_reported, Action.muted_reported]

/-- What the members give: of each step of the plan, the notices before and after it. -/
theorem exists_outcomes (w : BulkWrites I R) (steps : List (BulkStep R))
    (given : List (List N × Except Error Unit))
    (h : List.Forall₂ (fun m e => Action.Gives m e.1 e.2)
      (steps.map (·.perform (w.reported before after))) given) :
    ∃ outcomes : Outcomes R, outcomes.map (·.1) = steps ∧
      outcomes.map (·.2) = given.map (·.2) ∧
      (outcomes.flatMap fun e => before e.1 ++ after e.1 e.2) = given.flatMap (·.1) := by
  induction steps generalizing given with
  | nil =>
    cases h
    exact ⟨[], rfl, rfl, rfl⟩
  | cons step rest ih =>
    cases h with
    | @cons _ e _ given hfirst hrest =>
      obtain ⟨outcomes, hsteps, hresults, hnotices⟩ := ih given hrest
      have hsaid : (step.perform (w.reported before after)).Gives e.1 e.2 := hfirst
      rw [BulkStep.perform_reported] at hsaid
      refine ⟨(step, e.2) :: outcomes, ?_, ?_, ?_⟩
      · rw [List.map_cons, hsteps]
      · rw [List.map_cons, List.map_cons, hresults]
      · rw [List.flatMap_cons, List.flatMap_cons, hnotices, hsaid.of_reported]

/-- The notices of a plan at work are those of its steps, in any interleaving. -/
theorem gives_apply_reported (name : String) (w : BulkWrites I R) (p : BulkPlan R) (log : List N)
    (v : Except Error Operations) (h : (p.apply name (w.reported before after)).Gives log v) :
    ∃ outcomes : Outcomes R, outcomes.map (·.1) = p.steps ∧
      log.Perm (outcomes.flatMap fun e => before e.1 ++ after e.1 e.2) ∧
      v = p.conclude name (outcomes.map (·.2)) := by
  unfold apply at h
  rw [members_eq_map_steps] at h
  cases h with
  | group _ _ given said _ _ hms hsaid hdone =>
    cases hdone
    obtain ⟨outcomes, hsteps, hresults, hnotices⟩ := exists_outcomes before after w _ given hms
    rw [List.append_nil]
    exact ⟨outcomes, hsteps, hnotices ▸ hsaid, congrArg _ hresults.symm⟩

end

/-- A plan that deals with the members of two maps, each class in the order of its keys. -/
structure Shares (actual desired : SortedMap String R) (p : BulkPlan R) : Prop where
  desired : p.create.length + p.update.length + p.unchanged.length = desired.size
  actual : p.update.length + p.delete.length + p.unchanged.length = actual.size
  ascending_delete : (p.delete.map (·.1)).Pairwise (compare · · = .lt)
  ascending_create : (p.create.map (·.1)).Pairwise (compare · · = .lt)
  ascending_update : (p.update.map (·.1)).Pairwise (compare · · = .lt)

section
variable {agrees : R → R → Bool} {actual desired : SortedMap String R} {p : BulkPlan R}

theorem Classifies.distinct_wanted (h : Classifies agrees actual desired p) :
    (p.create.map (·.1) ++ p.update.map (·.1) ++ p.unchanged).Nodup := by
  have hdistinct := h.distinct
  unfold keys at hdistinct
  rw [List.append_assoc, List.append_assoc] at hdistinct
  rw [List.append_assoc]
  exact (List.nodup_append.mp hdistinct).2.1

theorem Classifies.distinct_seen (h : Classifies agrees actual desired p) :
    (p.delete.map (·.1) ++ p.update.map (·.1) ++ p.unchanged).Nodup := by
  refine List.Nodup.sublist ?_ h.distinct
  unfold keys
  exact ((List.sublist_append_left _ _).append_right _).append_right _

/-- The desired members are those that are created, updated or left unchanged. -/
theorem Classifies.perm_desired (h : Classifies agrees actual desired p) :
    (p.create.map (·.1) ++ p.update.map (·.1) ++ p.unchanged).Perm desired.keys := by
  have hkeys : desired.keys.Nodup := desired.distinct_keys
  refine (List.perm_ext_iff_of_nodup h.distinct_wanted hkeys).mpr fun key => ?_
  rw [List.mem_append, List.mem_append, List.mem_map, List.mem_map, h.mem_unchanged,
    SortedMap.mem_keys_iff, SortedMap.contains, Option.isSome_iff_exists]
  constructor
  · rintro ((⟨e, he, rfl⟩ | ⟨e, he, rfl⟩) | ⟨a, b, _, hb, _⟩)
    · exact ⟨_, ((h.mem_create _ _).mp he).2⟩
    · exact ⟨_, ((h.mem_update _ _ _).mp he).2.1⟩
    · exact ⟨b, hb⟩
  · rintro ⟨b, hb⟩
    cases ha : actual.get? key with
    | none => exact Or.inl (Or.inl ⟨(key, b), (h.mem_create key b).mpr ⟨ha, hb⟩, rfl⟩)
    | some a =>
      cases hagrees : agrees a b with
      | true => exact Or.inr ⟨a, b, rfl, hb, hagrees⟩
      | false =>
        exact Or.inl (Or.inr ⟨(key, a, b), (h.mem_update key a b).mpr ⟨ha, hb, hagrees⟩, rfl⟩)

/-- The actual members are those that are deleted, updated or left unchanged. -/
theorem Classifies.perm_actual (h : Classifies agrees actual desired p) :
    (p.delete.map (·.1) ++ p.update.map (·.1) ++ p.unchanged).Perm actual.keys := by
  have hkeys : actual.keys.Nodup := actual.distinct_keys
  refine (List.perm_ext_iff_of_nodup h.distinct_seen hkeys).mpr fun key => ?_
  rw [List.mem_append, List.mem_append, List.mem_map, List.mem_map, h.mem_unchanged,
    SortedMap.mem_keys_iff, SortedMap.contains, Option.isSome_iff_exists]
  constructor
  · rintro ((⟨e, he, rfl⟩ | ⟨e, he, rfl⟩) | ⟨a, b, ha, _⟩)
    · exact ⟨_, ((h.mem_delete _ _).mp he).1⟩
    · exact ⟨_, ((h.mem_update _ _ _).mp he).1⟩
    · exact ⟨a, ha⟩
  · rintro ⟨a, ha⟩
    cases hb : desired.get? key with
    | none => exact Or.inl (Or.inl ⟨(key, a), (h.mem_delete key a).mpr ⟨ha, hb⟩, rfl⟩)
    | some b =>
      cases hagrees : agrees a b with
      | true => exact Or.inr ⟨a, b, ha, rfl, hagrees⟩
      | false =>
        exact Or.inl (Or.inr ⟨(key, a, b), (h.mem_update key a b).mpr ⟨ha, hb, hagrees⟩, rfl⟩)

theorem Classifies.shares (h : Classifies agrees actual desired p) : Shares actual desired p where
  desired := by
    have hlength := h.perm_desired.length_eq
    simp only [List.length_append, List.length_map] at hlength
    exact hlength.trans (List.length_map _)
  actual := by
    have hlength := h.perm_actual.length_eq
    simp only [List.length_append, List.length_map] at hlength
    rw [Nat.add_comm p.update.length]
    exact hlength.trans (List.length_map _)
  ascending_delete := h.ascending_delete
  ascending_create := h.ascending_create
  ascending_update := h.ascending_update

theorem deletion_eq_between (agrees : R → R → Bool) (observed : SortedMap String R) :
    deletion observed = between agrees observed .empty := by
  unfold deletion between
  rw [BulkPlan.mk.injEq]
  refine ⟨rfl, ?_, ?_, ?_⟩
  · exact (List.filterMap_eq_nil_iff.mpr fun _ _ => rfl).symm
  · exact (List.filter_eq_self.mpr fun _ _ => rfl).symm
  · exact (List.filterMap_eq_nil_iff.mpr fun _ _ => rfl).symm

end
end BulkPlan

/-- What is heard of the work on a bulk dependent. -/
inductive BulkNotice (R : Type) where
  | wanted (outcome : Except Error (SortedMap String R))
  | found (outcome : Except Error (SortedMap String R))
  | begun (step : BulkStep R)
  | ended (step : BulkStep R) (outcome : Except Error Unit)

section
variable {I : Interface} {R : Type}

/-- The same writes, heard when the work on a member begins and when it ends. -/
def BulkWrites.audible (w : BulkWrites I R) : BulkWrites (I.noticing (BulkNotice R)) R :=
  w.reported (fun step => [.begun step]) fun step outcome => [.ended step outcome]

def BulkAdapterWrites.audible (w : BulkAdapterWrites I R) :
    BulkAdapterWrites (I.noticing (BulkNotice R)) R where
  desired primary ctx := (w.desired primary ctx).reported [] fun outcome => [.wanted outcome]
  agrees := w.agrees
  create key wanted primary ctx := (w.on primary ctx).audible.create key wanted
  update key actual wanted primary ctx := (w.on primary ctx).audible.update key actual wanted
  delete key actual primary ctx := (w.on primary ctx).audible.delete key actual

/-- A bulk dependent with writes, heard also when it knows its members. -/
def Adapter.audibleBulk
    (secondaries : ManagedObject → Context → Action I (Except Error (SortedMap String R)))
    (w : BulkAdapterWrites I R) : Adapter (I.noticing (BulkNotice R)) R :=
  .bulk (fun primary ctx => (secondaries primary ctx).reported [] fun outcome => [.found outcome])
    (some w.audible)

end

namespace BulkPlan
variable {I : Interface} {R : Type}

/-- Every step of a plan was worked on once, and the value tells of all of them. -/
structure Carried (name : String) (p : BulkPlan R) (outcomes : Outcomes R)
    (log : List (BulkNotice R)) (v : Except Error Operations) : Prop where
  steps : outcomes.map (·.1) = p.steps
  heard : log.Perm (outcomes.flatMap fun e => [.begun e.1, .ended e.1 e.2])
  concludes : Concludes name p outcomes v

/-- A reconcile pass over a bulk dependent, as it is heard. -/
inductive Reconciled (name : String) (agrees : R → R → Bool) :
    List (BulkNotice R) → Except Error Operations → Prop
  | unwanted (e : Error) : Reconciled name agrees [.wanted (.error e)] (.error e)
  | unseen (desired : SortedMap String R) (e : Error) :
      Reconciled name agrees [.wanted (.ok desired), .found (.error e)] (.error e)
  | carried (desired actual : SortedMap String R) (outcomes : Outcomes R)
      (log : List (BulkNotice R)) (v : Except Error Operations)
      (hshares : Shares actual desired (between agrees actual desired))
      (h : Carried name (between agrees actual desired) outcomes log v) :
      Reconciled name agrees (.wanted (.ok desired) :: .found (.ok actual) :: log) v

/-- A delete pass over a bulk dependent, as it is heard. -/
inductive Deleted (name : String) : List (BulkNotice R) → Except Error Operations → Prop
  | unseen (e : Error) : Deleted name [.found (.error e)] (.error e)
  | carried (actual : SortedMap String R) (outcomes : Outcomes R) (log : List (BulkNotice R))
      (v : Except Error Operations) (hshares : Shares actual .empty (deletion actual))
      (h : Carried name (deletion actual) outcomes log v) :
      Deleted name (.found (.ok actual) :: log) v

theorem muted_apply_audible (name : String) (w : BulkWrites I R) (p : BulkPlan R) :
    (p.apply name w.audible).muted = p.apply name w :=
  muted_apply_reported _ _ name w p

theorem exists_carried (name : String) (w : BulkWrites I R) (p : BulkPlan R)
    (log : List (BulkNotice R)) (v : Except Error Operations)
    (h : (p.apply name w.audible).Gives log v) : ∃ outcomes, Carried name p outcomes log v := by
  obtain ⟨outcomes, hsteps, hheard, rfl⟩ := gives_apply_reported _ _ name w p log v h
  exact ⟨outcomes, hsteps, hheard, concludes name p outcomes hsteps⟩

end BulkPlan

namespace Adapter
variable {I : Interface} {R σ : Type}
  (secondaries : ManagedObject → Context → Action I (Except Error (SortedMap String R)))
  (w : BulkAdapterWrites I R) (name : String) (primary : ManagedObject) (ctx : Context)

open BulkPlan

theorem muted_reconcile_audibleBulk :
    ((audibleBulk secondaries w).reconcile name primary ctx).muted =
      (bulk secondaries (some w)).reconcile name primary ctx := by
  unfold audibleBulk reconcile
  simp only [Task.muted_andThen, Task.muted_ofAction, BulkAdapterWrites.audible,
    Action.muted_reported]
  congr 1
  funext desired
  congr 1
  funext actual
  exact muted_apply_audible name (w.on primary ctx) _

theorem muted_delete_audibleBulk :
    ((audibleBulk secondaries w).delete name primary ctx).muted =
      (bulk secondaries (some w)).delete name primary ctx := by
  unfold audibleBulk delete
  simp only [Task.muted_andThen, Task.muted_ofAction, Action.muted_reported]
  congr 1
  funext observed
  exact muted_apply_audible name (w.on primary ctx) _

/-- A pass over a bulk dependent tells of every step of its plan. -/
theorem reconciled_of_gives (log : List (BulkNotice R)) (v : Except Error Operations)
    (h : ((audibleBulk secondaries w).reconcile name primary ctx).Gives log v) :
    Reconciled name w.agrees log v := by
  rcases h.of_andThen with ⟨e, rfl, hfailed⟩ | ⟨first, desired, rest, rfl, hfirst, hrest⟩
  · rw [((Task.gives_ofAction_iff _ _ _).mp hfailed).of_reported]
    exact .unwanted e
  · rw [((Task.gives_ofAction_iff _ _ _).mp hfirst).of_reported]
    rcases hrest.of_andThen with ⟨e, rfl, hfailed⟩ | ⟨second, actual, last, rfl, hsecond, hlast⟩
    · rw [((Task.gives_ofAction_iff _ _ _).mp hfailed).of_reported]
      exact .unseen desired e
    · rw [((Task.gives_ofAction_iff _ _ _).mp hsecond).of_reported]
      obtain ⟨outcomes, hcarried⟩ := exists_carried name (w.on primary ctx) _ last v hlast
      exact .carried desired actual outcomes last v
        (classifies_between w.agrees actual desired).shares hcarried

theorem deleted_of_gives (log : List (BulkNotice R)) (v : Except Error Operations)
    (h : ((audibleBulk secondaries w).delete name primary ctx).Gives log v) :
    Deleted name log v := by
  rcases h.of_andThen with ⟨e, rfl, hfailed⟩ | ⟨first, actual, rest, rfl, hfirst, hrest⟩
  · rw [((Task.gives_ofAction_iff _ _ _).mp hfailed).of_reported]
    exact .unseen e
  · rw [((Task.gives_ofAction_iff _ _ _).mp hfirst).of_reported]
    obtain ⟨outcomes, hcarried⟩ := exists_carried name (w.on primary ctx) _ rest v hrest
    refine .carried actual outcomes rest v ?_ hcarried
    rw [deletion_eq_between w.agrees]
    exact (classifies_between w.agrees actual .empty).shares

/-- Whatever is answered and when, the work on a plan comes to a value, every step was worked on
once, and the value tells of all of them; so do the passes over a bulk dependent, whose plans deal
with all desired and all actual members. -/
theorem bulk_reports (env : Environment I σ) :
    (∀ (members : BulkWrites I R) (p : BulkPlan R),
      Task.Reports env (fun log v => ∃ outcomes, Carried name p outcomes log v)
        (p.apply name members.audible) (p.apply name members)) ∧
    Task.Reports env (Reconciled name w.agrees)
      ((audibleBulk secondaries w).reconcile name primary ctx)
      ((bulk secondaries (some w)).reconcile name primary ctx) ∧
    Task.Reports env (Deleted name) ((audibleBulk secondaries w).delete name primary ctx)
      ((bulk secondaries (some w)).delete name primary ctx) := by
  refine ⟨fun members p => ?_, ?_, ?_⟩
  · exact .of_gives (muted_apply_audible name members p) (exists_carried name members p)
  · exact .of_gives (muted_reconcile_audibleBulk secondaries w name primary ctx)
      (reconciled_of_gives secondaries w name primary ctx)
  · exact .of_gives (muted_delete_audibleBulk secondaries w name primary ctx)
      (deleted_of_gives secondaries w name primary ctx)

/-- Members that take their time; all but one fail. -/
def frailMembers : Environment (memberCalls Nat) Unit where
  issue _ step s :=
    match step with
    | .delete .. => (6, s)
    | .create .. => (0, s)
    | .update .. => (1, s)
  answer _ step s := (if step.key = "a" then .ok () else .error (.reconciler step.key), s)

/-- Deletes one member, creates one and updates one. -/
def mixedPlan : BulkPlan Nat :=
  between (· == ·) (.ofList [("b", 1), ("c", 1)]) (.ofList [("a", 1), ("b", 2)])

/-- The created member succeeds at once, and the updated one fails before the deleted one does; the
value lists the deleted one first. -/
theorem bulk_reports_two_failures :
    ∃ log outcomes, Carried "room" mixedPlan outcomes log (.error (.dependents
      [("room[c]", .reconciler "c"), ("room[b]", .reconciler "b")])) := by
  obtain ⟨hplan, _, _⟩ := bulk_reports (fun _ _ => .done (.ok .empty))
    (⟨fun _ _ => .done (.ok .empty), (· == ·), fun _ _ _ _ => .done (.ok ()),
      fun _ _ _ _ _ => .done (.ok ()), fun _ _ _ _ => .done (.ok ())⟩ :
      BulkAdapterWrites (memberCalls Nat) Nat) "room" default { primary := default } frailMembers
  have htold := hplan (memberWrites Nat) mixedPlan
  have hover : (mixedPlan.apply "room" (memberWrites Nat)).Reaches frailMembers
      (.finished (.error (.dependents
        [("room[c]", .reconciler "c"), ("room[b]", .reconciler "b")]))) :=
    .resume _ (.resume _ (.start 0 ()) 1 ()) 6 ()
  obtain ⟨log, q, hheard, hmutes⟩ := htold.heard _ hover
  cases hmutes
  obtain ⟨outcomes, hcarried⟩ := htold.complete log _ hheard
  exact ⟨log, outcomes, hcarried⟩

end Adapter
end Reconciliation
