import Reconciliation.Proofs.Workflow.Fates

/-!
What a pass records. Outcomes are found by node on the way and by name in the result; no node is
recorded twice, so the two views agree. The result of a pass whose walks are over is that of
the pass that takes one node at a time.
-/
namespace Reconciliation.Workflow

variable {I : Interface} {w : Workflow I}

/-- The result holds these outcomes of nodes, each under the name of its node, and no other. -/
structure Records (w : Workflow I) (r : PassResult) (es : List (Nat × NodeOutcome)) : Prop where
  named : r.recorded = es.map fun e => (w.nameAt e.1, e.2)
  ids_lt : ∀ e ∈ es, e.1 < w.nodes.length
  nodup : (es.map (·.1)).Nodup

theorem recorded_recordAll (w : Workflow I) (r : PassResult) (es : List (Nat × NodeOutcome)) :
    (w.recordAll r es).recorded = r.recorded ++ es.map fun e => (w.nameAt e.1, e.2) := by
  unfold recordAll
  induction es generalizing r with
  | nil => exact (List.append_nil _).symm
  | cons e rest ih =>
    rw [List.foldl_cons, ih, List.map_cons]
    unfold PassResult.record
    rw [List.append_assoc, List.singleton_append]

theorem records_blank (w : Workflow I) (mode : PassMode) : w.Records (w.blankResult mode) [] :=
  ⟨rfl, fun _ h => absurd h List.not_mem_nil, List.nodup_nil⟩

/-- Outcomes of other nodes are recorded beside those that are there. -/
theorem Records.recordAll {r : PassResult} {es : List (Nat × NodeOutcome)}
    (h : w.Records r es) (more : List (Nat × NodeOutcome))
    (hlt : ∀ e ∈ more, e.1 < w.nodes.length) (hnodup : (more.map (·.1)).Nodup)
    (hnew : ∀ e ∈ more, es.lookup e.1 = none) :
    w.Records (w.recordAll r more) (es ++ more) := by
  refine ⟨?_, fun e he => ?_, ?_⟩
  · rw [recorded_recordAll, h.named, List.map_append]
  · rcases List.mem_append.mp he with he | he
    · exact h.ids_lt e he
    · exact hlt e he
  · rw [List.map_append, List.nodup_append]
    refine ⟨h.nodup, hnodup, ?_⟩
    rintro i hi _ hmore rfl
    obtain ⟨e, he, rfl⟩ := List.mem_map.mp hi
    obtain ⟨e', he', heq⟩ := List.mem_map.mp hmore
    have hnone := hnew e' he'
    rw [heq, Association.lookup_of_mem es h.nodup e.1 e.2 he] at hnone
    cases hnone

/-- Every name is recorded once at most. -/
theorem Records.completionOrder_nodup (hw : w.WellFormed) {r : PassResult}
    {es : List (Nat × NodeOutcome)} (h : w.Records r es) : r.completionOrder.Nodup := by
  unfold PassResult.completionOrder
  rw [h.named, List.map_map]
  have hnames : es.map ((·.1) ∘ fun e => (w.nameAt e.1, e.2)) =
      (es.map (·.1)).map w.nameAt := by
    rw [List.map_map]
    rfl
  rw [hnames]
  refine List.Nodup.map_on ?_ h.nodup
  intro i hi j hj heq
  obtain ⟨e, he, rfl⟩ := List.mem_map.mp hi
  obtain ⟨e', he', rfl⟩ := List.mem_map.mp hj
  exact hw.nameAt_injective _ _ (h.ids_lt e he) (h.ids_lt e' he') heq

theorem nameAt_eq_of_findIdx? (w : Workflow I) (name : String) (i : Nat)
    (h : w.nodes.findIdx? (·.node.name = name) = some i) :
    i < w.nodes.length ∧ w.nameAt i = name := by
  obtain ⟨hi, hname, _⟩ := List.findIdx?_eq_some_iff_getElem.mp h
  refine ⟨hi, ?_⟩
  unfold nameAt nodeAt?
  rw [List.getElem?_eq_getElem hi]
  simpa using hname

theorem nameAt_ne_of_findIdx? (w : Workflow I) (name : String)
    (h : w.nodes.findIdx? (·.node.name = name) = none) (i : Nat) (hi : i < w.nodes.length) :
    w.nameAt i ≠ name := by
  have hne := List.findIdx?_eq_none_iff.mp h w.nodes[i] (List.getElem_mem hi)
  unfold nameAt nodeAt?
  rw [List.getElem?_eq_getElem hi]
  simpa using hne

/-- As the names are distinct, an outcome is found by name where it is found by node. -/
theorem WellFormed.lookup_named (hw : w.WellFormed) (es : List (Nat × NodeOutcome))
    (hes : ∀ e ∈ es, e.1 < w.nodes.length) (i : Nat) (hi : i < w.nodes.length) :
    (es.map fun e => (w.nameAt e.1, e.2)).lookup (w.nameAt i) = es.lookup i := by
  induction es with
  | nil => rfl
  | cons e rest ih =>
    have hname : (w.nameAt i == w.nameAt e.1) = (i == e.1) := by
      by_cases heq : i = e.1
      · rw [heq, beq_self_eq_true, beq_self_eq_true]
      · have hne : w.nameAt i ≠ w.nameAt e.1 := fun h =>
          heq (hw.nameAt_injective i e.1 hi (hes e List.mem_cons_self) h)
        rw [beq_false_of_ne heq, beq_false_of_ne hne]
    rw [List.map_cons, List.lookup_cons, List.lookup_cons, hname,
      ih fun e' he' => hes e' (List.mem_cons_of_mem e he')]

/-- What the result says of a name is what was recorded for the node of that name. -/
theorem Records.outcome? (hw : w.WellFormed) {r : PassResult} {es : List (Nat × NodeOutcome)}
    (h : w.Records r es) (name : String) :
    r.outcome? name =
      (w.nodes.findIdx? (·.node.name = name)).bind fun i => es.lookup i := by
  unfold PassResult.outcome?
  rw [h.named]
  cases hfind : w.nodes.findIdx? (·.node.name = name) with
  | some i =>
    obtain ⟨hi, rfl⟩ := w.nameAt_eq_of_findIdx? name i hfind
    exact hw.lookup_named es h.ids_lt i hi
  | none =>
    rw [Option.bind_none, List.lookup_eq_none_iff]
    intro e he
    obtain ⟨e', he', rfl⟩ := List.mem_map.mp he
    have hne := w.nameAt_ne_of_findIdx? name hfind e'.1 (h.ids_lt e' he')
    simpa using hne.symm

theorem Records.outcome?_nameAt (hw : w.WellFormed) {r : PassResult}
    {es : List (Nat × NodeOutcome)} (h : w.Records r es) (i : Nat) (hi : i < w.nodes.length) :
    r.outcome? (w.nameAt i) = es.lookup i := by
  unfold PassResult.outcome?
  rw [h.named]
  exact hw.lookup_named es h.ids_lt i hi

/-- A pass records the outcomes that every node has when one is taken at a time. -/
def Settled (w : Workflow I) (mode : PassMode) (answers : String → NodeAnswers)
    (r : PassResult) : Prop :=
  r.completionOrder.Nodup ∧ ∀ name, r.outcome? name = w.sequentialOutcome? mode answers name

theorem Records.settled (hw : w.WellFormed) {r : PassResult} {es : List (Nat × NodeOutcome)}
    (h : w.Records r es) (mode : PassMode) (answers : String → NodeAnswers)
    (hes : ∀ i < w.nodes.length, es.lookup i = w.sequential mode answers i) :
    w.Settled mode answers r := by
  refine ⟨h.completionOrder_nodup hw, fun name => ?_⟩
  rw [h.outcome? hw]
  unfold sequentialOutcome?
  cases hfind : w.nodes.findIdx? (·.node.name = name) with
  | none => rfl
  | some i => exact hes i (w.nameAt_eq_of_findIdx? name i hfind).1

/-- What the walk over all nodes ran, without the marks. -/
theorem records_ran (w : Workflow I) (mode : PassMode) (outcome : Nat → NodeOutcome)
    (completed : List (Nat × NodeOutcome))
    (hover : (w.walk mode).Finished outcome completed) :
    w.Records (w.recordAll (w.blankResult mode) (completed.filter fun e => !e.2.isDeleted))
      (completed.filter fun e => !e.2.isDeleted) :=
  (w.records_blank mode).recordAll _
    (fun e he => hover.ids_lt e (List.mem_filter.mp he).1)
    (hover.nodup.sublist (List.filter_sublist.map _)) fun _ _ => rfl

/-- As no node is marked, what a cleanup walk records is the whole result. -/
theorem WellFormed.settled_cleanup (hw : w.WellFormed) (answers : String → NodeAnswers)
    (completed : List (Nat × NodeOutcome))
    (hover : (w.walk .cleanup).Finished (w.visitedAt answers .cleanup) completed) :
    w.Settled .cleanup answers (w.mainResult .cleanup completed) := by
  refine (w.records_ran .cleanup _ completed hover).settled hw .cleanup answers fun i hi => ?_
  have hclear := hw.clearing_eq answers (fun _ => true) (fun _ => true) (fun _ _ => rfl)
    completed hover i hi
  unfold sequential
  rw [Association.lookup_filter completed hover.nodup fun o => !o.isDeleted]
  dsimp only
  rw [hclear, hover.lookup i hi]
  split
  · have hclosed := (answers (w.nameAt i)).cleanup_not_deleted
    refine Option.filter_some_pos ?_
    unfold visitedAt NodeAnswers.visited
    dsimp only
    rw [hclosed]
    rfl
  · rfl

/-- A node is found inactive once along an order without repetitions. -/
theorem inactiveAlong_nodup (w : Workflow I) (completed : List (Nat × NodeOutcome))
    (marked order inactive : List Nat) (hnodup : order.Nodup) (hinactive : inactive.Nodup)
    (hnew : ∀ i ∈ order, i ∉ inactive) :
    (w.inactiveAlong completed marked inactive order).Nodup := by
  induction order generalizing inactive with
  | nil => exact hinactive
  | cons i rest ih =>
    rw [List.nodup_cons] at hnodup
    have hi : i ∉ inactive := hnew i List.mem_cons_self
    have hrest : ∀ j ∈ rest, j ∉ inactive := fun j hj => hnew j (List.mem_cons_of_mem i hj)
    unfold inactiveAlong
    dsimp only
    split
    · have hmore : (inactive ++ [i]).Nodup := by
        rw [← List.concat_eq_append]
        exact hinactive.concat hi
      refine ih _ hnodup.2 hmore fun j hj hmem => ?_
      rcases List.mem_append.mp hmem with hmem | hmem
      · exact hrest j hj hmem
      · rw [List.mem_singleton.mp hmem] at hj
        exact hnodup.1 hj
    · exact ih inactive hnodup.2 hinactive hrest

/-- The first walk of a reconcile pass leaves a result for the nodes that are not marked. -/
theorem WellFormed.records_main (hw : w.WellFormed) (outcome : Nat → NodeOutcome)
    (completed : List (Nat × NodeOutcome))
    (hover : (w.walk .reconcile).Finished outcome completed) :
    ∃ es, w.Records (w.mainResult .reconcile completed) es ∧
      ∀ i < w.nodes.length, es.lookup i = (w.observed completed i).outcome? := by
  have hlookup := fun i => Association.lookup_filter completed hover.nodup (fun o => !o.isDeleted) i
  refine ⟨_, (w.records_ran .reconcile outcome completed hover).recordAll
    ((w.inactive completed (w.marked completed)).map (·, .skippedInactive))
    (fun e he => ?_) ?_ fun e he => ?_, fun i hi => ?_⟩
  · obtain ⟨i, hi, rfl⟩ := List.mem_map.mp he
    exact hw.lt_of_inactive completed _ i hi
  · rw [List.map_map]
    have hids : ∀ is : List Nat, is.map ((·.1) ∘ (·, NodeOutcome.skippedInactive)) = is :=
      fun is => List.map_id' is
    rw [hids]
    exact w.inactiveAlong_nodup completed _ _ [] hw.nodup List.nodup_nil
      fun _ _ => List.not_mem_nil
  · obtain ⟨i, hi, rfl⟩ := List.mem_map.mp he
    have hcontains : (w.inactive completed (w.marked completed)).contains i = true := by
      simpa using hi
    have hlt := hw.lt_of_inactive completed _ i hi
    rw [hw.inactive_contains completed _ i hlt] at hcontains
    unfold inactivityOf at hcontains
    rw [Bool.and_eq_true, Bool.and_eq_true, Option.isNone_iff_eq_none] at hcontains
    rw [hlookup, hcontains.1.1]
    rfl
  · rw [List.lookup_append, hlookup, Association.lookup_same,
      hw.outcome_observed outcome completed hover i hi]

/-- Without marked nodes the first walk is the whole reconcile pass. -/
theorem WellFormed.settled_reconcile (hw : w.WellFormed) (answers : String → NodeAnswers)
    (completed : List (Nat × NodeOutcome))
    (hover : (w.walk .reconcile).Finished (w.visitedAt answers .reconcile) completed)
    (hmarked : w.marked completed = []) :
    w.Settled .reconcile answers (w.mainResult .reconcile completed) := by
  obtain ⟨es, hrecords, hes⟩ := hw.records_main _ completed hover
  refine hrecords.settled hw .reconcile answers fun i hi => ?_
  have hmark := w.isMarked_observed completed i
  rw [hmarked] at hmark
  unfold sequential
  rw [hes i hi]
  dsimp only
  rw [hw.fates_eq answers completed hover i hi]
  cases hfate : w.observed completed i with
  | marked =>
    rw [hfate] at hmark
    cases hmark
  | reached o => rfl
  | blocked => rfl

/-- Only marked nodes run in the walk that deletes them. -/
theorem observed_of_removed (w : Workflow I) (outcome : Nat → NodeOutcome)
    (completed removed : List (Nat × NodeOutcome))
    (hremoved : (w.removal (w.marked completed)).Finished outcome removed) (i : Nat)
    (hi : i < w.nodes.length) (hran : removed.lookup i ≠ none) :
    w.observed completed i = .marked := by
  rw [hremoved.lookup i hi] at hran
  split at hran
  · rename_i heligible
    obtain ⟨hmark, _⟩ :=
      ((w.removal (w.marked completed)).isEligible_iff removed i).mp heligible
    unfold observed
    exact if_pos hmark
  · exact absurd rfl hran

/-- The walk over the marked nodes adds their outcomes to those of the first walk. -/
theorem WellFormed.records_removal (hw : w.WellFormed) (outcome cleaned : Nat → NodeOutcome)
    (completed removed : List (Nat × NodeOutcome))
    (hover : (w.walk .reconcile).Finished outcome completed)
    (hremoved : (w.removal (w.marked completed)).Finished cleaned removed) :
    ∃ es, w.Records (w.removalResult (w.mainResult .reconcile completed) removed) es ∧
      ∀ i < w.nodes.length, es.lookup i =
        (w.observed completed i).outcome?.or ((removed.lookup i).map NodeOutcome.asDeleted) := by
  obtain ⟨es, hrecords, hes⟩ := hw.records_main outcome completed hover
  unfold removalResult
  refine ⟨_, hrecords.recordAll (removed.map fun e => (e.1, e.2.asDeleted)) (fun e he => ?_) ?_
    fun e he => ?_, fun i hi => ?_⟩
  · obtain ⟨e', he', rfl⟩ := List.mem_map.mp he
    exact hremoved.ids_lt e' he'
  · rw [List.map_map]
    exact hremoved.nodup
  · obtain ⟨e', he', rfl⟩ := List.mem_map.mp he
    have hlt := hremoved.ids_lt e' he'
    have hran : removed.lookup e'.1 ≠ none := by
      rw [Association.lookup_of_mem removed hremoved.nodup e'.1 e'.2 he']
      exact Option.some_ne_none _
    rw [hes e'.1 hlt, w.observed_of_removed cleaned completed removed hremoved e'.1 hlt hran]
    rfl
  · rw [List.lookup_append, Association.lookup_map removed NodeOutcome.asDeleted, hes i hi]

/-- The walk over the marked nodes completes the reconcile pass. -/
theorem WellFormed.settled_removal (hw : w.WellFormed) (answers : String → NodeAnswers)
    (completed removed : List (Nat × NodeOutcome))
    (hover : (w.walk .reconcile).Finished (w.visitedAt answers .reconcile) completed)
    (hremoved : (w.removal (w.marked completed)).Finished (w.visitedAt answers .cleanup)
      removed) :
    w.Settled .reconcile answers
      (w.removalResult (w.mainResult .reconcile completed) removed) := by
  obtain ⟨es, hrecords, hes⟩ := hw.records_removal _ _ completed removed hover hremoved
  refine hrecords.settled hw .reconcile answers fun i hi => ?_
  have hclear := hw.clearing_eq answers (w.marked completed).contains
    (fun j => (w.fates answers j).isMarked)
    (fun j hj => by rw [hw.fates_eq answers completed hover j hj, isMarked_observed])
    removed hremoved i hi
  unfold sequential
  dsimp only
  rw [hes i hi, hclear, hw.fates_eq answers completed hover i hi]
  cases hfate : w.observed completed i with
  | marked => rfl
  | reached o => rfl
  | blocked =>
    have hnone : removed.lookup i = none := by
      by_contra hran
      rw [w.observed_of_removed _ completed removed hremoved i hi hran] at hfate
      cases hfate
    rw [hnone]
    rfl

end Reconciliation.Workflow
