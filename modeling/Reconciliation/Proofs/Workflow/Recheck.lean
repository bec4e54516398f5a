import Reconciliation.Proofs.Workflow.Report

/-!
Passes that leave something to do. A node without an outcome is held back by another one, which
has failed or is not ready, or is held back itself. Along the order of the walk this comes to an
end, so a result without errors that needs no recheck is ready.
-/
namespace Reconciliation

namespace NodeOutcome

theorem isSettled_of_quiet (o : NodeOutcome) (herrored : o.isErrored = false)
    (hready : o.isNotReady = false) : o.isSettled = true := by
  cases o with
  | succeeded | skippedInactive | deleted => rfl
  | notReady => cases hready
  | errored => cases herrored

theorem isSettled_asDeleted (o : NodeOutcome) : o.asDeleted.isSettled = o.isSettled := by
  cases o <;> rfl

/-- Settled without having been deleted. -/
def isKept (o : NodeOutcome) : Bool := o.isSucceeded || o.isSkipped

theorem isKept_of_settled (o : NodeOutcome) (hsettled : o.isSettled = true)
    (hdeleted : o.isDeleted = false) : o.isKept = true := by
  cases o with
  | succeeded | skippedInactive => rfl
  | deleted => cases hdeleted
  | notReady | errored => cases hsettled

end NodeOutcome

/-- No outcome of the pass asks for more. -/
def PassResult.Quiet (r : PassResult) : Prop := ∀ e ∈ r.recorded, e.2.isSettled = true

theorem PassResult.quiet_of_flags (r : PassResult) (herrors : r.hasErrors = false)
    (hrecheck : r.needsRecheck = false) : r.Quiet := by
  intro e he
  have herrored := List.any_eq_false.mp herrors e he
  have hready := List.any_eq_false.mp hrecheck e he
  exact e.2.isSettled_of_quiet (Bool.not_eq_true _ ▸ herrored) (Bool.not_eq_true _ ▸ hready)

/-- A result that is handed out as one has no errors. -/
theorem PassResult.hasErrors_of_toExcept (r r' : PassResult) (h : r.toExcept = .ok r') :
    r.hasErrors = false := by
  unfold PassResult.toExcept at h
  split at h
  · rename_i herrored
    refine List.any_eq_false.mpr fun e he => ?_
    have hnone := List.filterMap_eq_nil_iff.mp (List.isEmpty_iff.mp herrored) e he
    cases houtcome : e.2 with
    | errored error =>
      rw [houtcome] at hnone
      cases hnone
    | _ => exact Bool.false_ne_true
  · cases h

/-- A node that did not run was held back by one upstream. -/
theorem Walk.Finished.held {I : Interface} {w : Walk I} {outcome : Nat → NodeOutcome}
    {completed : List (Nat × NodeOutcome)} (h : w.Finished outcome completed) (i : Nat)
    (hi : i < w.workflow.nodes.length) (hscope : w.scope i = true)
    (hran : completed.lookup i = none) :
    ∃ p ∈ w.upstream i, (completed.lookup p).any w.lets = false := by
  by_contra hnone
  have hall : ∀ p ∈ w.upstream i, (completed.lookup p).any w.lets = true := fun p hp =>
    Bool.not_eq_false _ ▸ fun hheld => hnone ⟨p, hp, hheld⟩
  have heligible := (w.isEligible_iff completed i).mpr ⟨hscope, hall⟩
  rw [h.lookup i hi, if_pos heligible] at hran
  cases hran

namespace Workflow
variable {I : Interface} {w : Workflow I}

section Walks
variable (hw : w.WellFormed) {outcome : Nat → NodeOutcome}
  {completed : List (Nat × NodeOutcome)}
include hw

/-- Above a node that is not marked, no node is. -/
theorem WellFormed.unmarked_above (i : Nat) (hi : i < w.nodes.length)
    (hmark : (w.marked completed).contains i = false) :
    (w.predecessorsAt i).any (w.marked completed).contains = false := by
  rw [hw.marked_contains completed i hi] at hmark
  exact (Bool.or_eq_false_iff.mp hmark).2

variable (hsettled : ∀ i o, completed.lookup i = some o → o.isSettled = true)
include hsettled

/-- A cleanup walk whose outcomes are all settled has reached every node in scope. -/
theorem WellFormed.cleared_of_settled (scope : Nat → Bool)
    (hover : ({ workflow := w, mode := .cleanup, scope } : Walk I).Finished outcome completed) :
    ∀ i < w.nodes.length, scope i = true → ∃ o, completed.lookup i = some o := by
  refine hw.upward _ fun i hi hsucc hscope => ?_
  refine Option.ne_none_iff_exists'.mp fun hran => ?_
  obtain ⟨s, hs, hheld⟩ := hover.held i hi hscope hran
  obtain ⟨hs, hin⟩ := List.mem_filter.mp hs
  obtain ⟨o, ho⟩ := hsucc s hs hin
  rw [ho, Option.any_some] at hheld
  exact absurd (hsettled s o ho) (Bool.eq_false_iff.mp hheld)

/-- A reconcile walk whose outcomes are all settled leaves out marked nodes only. -/
theorem WellFormed.kept_of_settled (hover : (w.walk .reconcile).Finished outcome completed) :
    ∀ i < w.nodes.length, (w.marked completed).contains i = false →
      (w.observed completed i).outcome?.any NodeOutcome.isKept = true := by
  refine hw.downward _ fun i hi hpred hmark => ?_
  have habove := hw.unmarked_above i hi hmark
  have hunmarked : ∀ p ∈ w.predecessorsAt i, (w.marked completed).contains p = false :=
    fun p hp => Bool.not_eq_true _ ▸ List.any_eq_false.mp habove p hp
  cases hran : completed.lookup i with
  | some o =>
    rw [hw.marked_of_lookup outcome completed hover i hi o hran] at hmark
    rw [hw.outcome_observed outcome completed hover i hi, hran,
      Option.filter_some_pos (by rw [hmark]; rfl)]
    exact o.isKept_of_settled (hsettled i o hran) hmark
  | none =>
    -- the predecessor that holds the node back is skipped, and the node with it
    obtain ⟨p, hp, hheld⟩ : ∃ p ∈ w.predecessorsAt i,
      (completed.lookup p).any NodeOutcome.isSucceeded = false := hover.held i hi rfl hran
    have hkept := hpred p hp (hunmarked p hp)
    rw [← w.succeeded_observed completed p (hunmarked p hp)] at hheld
    have hskipped : (w.observed completed p).outcome?.any NodeOutcome.isSkipped = true := by
      obtain ⟨o, ho, hkept⟩ := (Option.any_eq_true _ _).mp hkept
      rw [ho, Option.any_some] at hheld
      unfold NodeOutcome.isKept at hkept
      rw [ho, Option.any_some]
      rwa [hheld, Bool.false_or] at hkept
    rw [hw.skipped_observed completed p (hw.predecessor_lt i p hp) (hunmarked p hp)] at hskipped
    rw [hw.observed_of_lookup_eq_none completed i hi habove hran,
      if_pos (List.any_eq_true.mpr ⟨p, hp, hskipped⟩)]
    rfl

end Walks

section Results
variable {r : PassResult} {es : List (Nat × NodeOutcome)} (hrecords : w.Records r es)
  (hquiet : r.Quiet)
include hrecords hquiet

theorem Records.settled_of_lookup {i : Nat} {o : NodeOutcome} (ho : es.lookup i = some o) :
    o.isSettled = true := by
  have hmem : (w.nameAt i, o) ∈ r.recorded := by
    rw [hrecords.named]
    exact List.mem_map_of_mem (Association.mem_of_lookup es i o ho)
  exact hquiet _ hmem

theorem Records.allReady (hw : w.WellFormed) (hdeclared : r.declared = w.topologicalOrder)
    (hall : ∀ i < w.nodes.length, ∃ o, es.lookup i = some o) : r.allReady = true := by
  refine List.all_eq_true.mpr fun name hname => ?_
  rw [hdeclared] at hname
  obtain ⟨i, hi, rfl⟩ := List.mem_map.mp hname
  have hi := (hw.mem_topological i).mp hi
  obtain ⟨o, ho⟩ := hall i hi
  rw [hrecords.outcome?_nameAt hw i hi, ho]
  exact hrecords.settled_of_lookup hquiet ho

/-- Whatever the first walk of a reconcile pass ran is recorded, or marked. -/
theorem Records.settled_of_observed (hw : w.WellFormed) {outcome : Nat → NodeOutcome}
    {completed : List (Nat × NodeOutcome)}
    (hover : (w.walk .reconcile).Finished outcome completed)
    (hes : ∀ i < w.nodes.length, ∀ o, (w.observed completed i).outcome? = some o →
      es.lookup i = some o) (i : Nat) (o : NodeOutcome) (ho : completed.lookup i = some o) :
    o.isSettled = true := by
  have hi : i < w.nodes.length := hover.ids_lt _ (Association.mem_of_lookup completed i o ho)
  cases hdeleted : o.isDeleted with
  | true =>
    cases o with
    | deleted => rfl
    | _ => cases hdeleted
  | false =>
    refine hrecords.settled_of_lookup hquiet (hes i hi o ?_)
    rw [hw.outcome_observed outcome completed hover i hi, ho,
      Option.filter_some_pos (by rw [hdeleted]; rfl)]
    rfl

end Results

/-- A pass whose outcomes ask for nothing has reached all nodes. -/
theorem Leaves.allReady (hw : w.WellFormed) {mode : PassMode} {r : PassResult}
    (h : w.Leaves mode r) (hquiet : r.Quiet) : r.allReady = true := by
  have hdeclared := (h.reports hw).declared
  cases h with
  | cleaned outcome completed hover hunmarked =>
    have hrecords : w.Records (w.mainResult .cleanup completed)
        (completed.filter fun e => !e.2.isDeleted) := w.records_ran .cleanup outcome completed hover
    have hran : (completed.filter fun e => !e.2.isDeleted) = completed :=
      List.filter_eq_self.mpr fun e he => by rw [hunmarked e he]; rfl
    rw [hran] at hrecords
    refine hrecords.allReady hquiet hw hdeclared fun i hi => ?_
    exact hw.cleared_of_settled (fun _ _ => hrecords.settled_of_lookup hquiet) _ hover i hi rfl
  | reconciled outcome completed hover hunmarked =>
    obtain ⟨es, hrecords, hes⟩ := hw.records_main outcome completed hover
    have hsettled := hrecords.settled_of_observed hquiet hw hover
      fun i hi o ho => (hes i hi).trans ho
    refine hrecords.allReady hquiet hw hdeclared fun i hi => ?_
    have hmark : (w.marked completed).contains i = false := by
      rw [hunmarked]
      rfl
    obtain ⟨o, ho, _⟩ := (Option.any_eq_true _ _).mp (hw.kept_of_settled hsettled hover i hi hmark)
    exact ⟨o, (hes i hi).trans ho⟩
  | removed outcome cleaned completed removed hover hremoved =>
    obtain ⟨es, hrecords, hes⟩ :=
      hw.records_removal outcome cleaned completed removed hover hremoved
    have hsettled := hrecords.settled_of_observed hquiet hw hover fun i hi o ho => by
      rw [hes i hi, ho, Option.some_or]
    have hcleared : ∀ i o, removed.lookup i = some o → o.isSettled = true := by
      intro i o ho
      have hi : i < w.nodes.length := hremoved.ids_lt _ (Association.mem_of_lookup removed i o ho)
      have hobserved := w.observed_of_removed cleaned completed removed hremoved i hi
        (by rw [ho]; exact Option.some_ne_none o)
      rw [← o.isSettled_asDeleted]
      refine hrecords.settled_of_lookup (i := i) hquiet ?_
      rw [hes i hi, hobserved, ho]
      rfl
    refine hrecords.allReady hquiet hw hdeclared fun i hi => ?_
    rw [hes i hi]
    cases hmark : (w.marked completed).contains i with
    | true =>
      obtain ⟨o, ho⟩ := hw.cleared_of_settled hcleared _ hremoved i hi hmark
      have hobserved : w.observed completed i = .marked := if_pos hmark
      rw [hobserved, ho]
      exact ⟨_, rfl⟩
    | false =>
      obtain ⟨o, ho, _⟩ :=
        (Option.any_eq_true _ _).mp (hw.kept_of_settled hsettled hover i hi hmark)
      rw [ho]
      exact ⟨o, rfl⟩

/-- A result that is not ready has an error, or a node that is to be looked at again. -/
theorem Leaves.asks (hw : w.WellFormed) {mode : PassMode} {r : PassResult} (h : w.Leaves mode r)
    (hunready : r.allReady = false) : r.hasErrors = true ∨ r.needsRecheck = true := by
  by_contra hsilent
  rw [not_or, Bool.not_eq_true, Bool.not_eq_true] at hsilent
  have hready := h.allReady hw (r.quiet_of_flags hsilent.1 hsilent.2)
  rw [hunready] at hready
  cases hready

end Workflow
end Reconciliation
