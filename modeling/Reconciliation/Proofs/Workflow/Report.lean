import Reconciliation.Proofs.Workflow.Results

/-!
What the result of a pass says of a workflow. It names every node as declared and holds one
outcome at most for each of them, so a result that is ready leaves no node unsettled.
-/
namespace Reconciliation

namespace NodeOutcome

theorem error?_eq_none (o : NodeOutcome) (h : o.isSettled = true) : o.error? = none := by
  cases o with
  | errored e => cases h
  | _ => rfl

theorem isNotReady_eq_false (o : NodeOutcome) (h : o.isSettled = true) :
    o.isNotReady = false := by
  cases o with
  | notReady operations reason => cases h
  | _ => rfl

end NodeOutcome

namespace Workflow
variable {I : Interface}

/-- The result declares the nodes in their order and has one outcome at most for each. -/
structure Reports (w : Workflow I) (r : PassResult) : Prop where
  declared : r.declared = w.topologicalOrder
  records : ∃ es, w.Records r es

theorem declared_recordAll (w : Workflow I) (r : PassResult) (es : List (Nat × NodeOutcome)) :
    (w.recordAll r es).declared = r.declared := by
  unfold recordAll
  induction es generalizing r with
  | nil => rfl
  | cons e rest ih => exact ih _

theorem declared_mainResult (w : Workflow I) (mode : PassMode)
    (completed : List (Nat × NodeOutcome)) :
    (w.mainResult mode completed).declared = w.topologicalOrder := by
  cases mode with
  | cleanup => exact w.declared_recordAll _ _
  | reconcile => exact (w.declared_recordAll _ _).trans (w.declared_recordAll _ _)

theorem WellFormed.reports_main {w : Workflow I} (hw : w.WellFormed) (mode : PassMode)
    {outcome : Nat → NodeOutcome} {completed : List (Nat × NodeOutcome)}
    (hover : (w.walk mode).Finished outcome completed) :
    w.Reports (w.mainResult mode completed) := by
  refine ⟨w.declared_mainResult mode completed, ?_⟩
  cases mode with
  | cleanup => exact ⟨_, w.records_ran .cleanup outcome completed hover⟩
  | reconcile =>
    obtain ⟨es, hrecords, _⟩ := hw.records_main outcome completed hover
    exact ⟨es, hrecords⟩

theorem WellFormed.reports_removal {w : Workflow I} (hw : w.WellFormed)
    {outcome cleaned : Nat → NodeOutcome} {completed removed : List (Nat × NodeOutcome)}
    (hover : (w.walk .reconcile).Finished outcome completed)
    (hremoved : (w.removal (w.marked completed)).Finished cleaned removed) :
    w.Reports (w.removalResult (w.mainResult .reconcile completed) removed) := by
  obtain ⟨es, hrecords, _⟩ := hw.records_removal outcome cleaned completed removed hover hremoved
  have hdeclared := w.declared_recordAll (w.mainResult .reconcile completed)
    (removed.map fun e => (e.1, e.2.asDeleted))
  exact ⟨hdeclared.trans (w.declared_mainResult .reconcile completed), es, hrecords⟩

/-- The results that a pass of a mode can leave, with the walks that lead to them. -/
inductive Leaves (w : Workflow I) : PassMode → PassResult → Prop
  | cleaned (outcome : Nat → NodeOutcome) (completed : List (Nat × NodeOutcome))
      (hover : (w.walk .cleanup).Finished outcome completed)
      (hunmarked : ∀ e ∈ completed, e.2.isDeleted = false) :
      Leaves w .cleanup (w.mainResult .cleanup completed)
  | reconciled (outcome : Nat → NodeOutcome) (completed : List (Nat × NodeOutcome))
      (hover : (w.walk .reconcile).Finished outcome completed)
      (hunmarked : w.marked completed = []) :
      Leaves w .reconcile (w.mainResult .reconcile completed)
  | removed (outcome cleaned : Nat → NodeOutcome) (completed removed : List (Nat × NodeOutcome))
      (hover : (w.walk .reconcile).Finished outcome completed)
      (hremoved : (w.removal (w.marked completed)).Finished cleaned removed) :
      Leaves w .reconcile (w.removalResult (w.mainResult .reconcile completed) removed)

theorem Leaves.reports {w : Workflow I} (hw : w.WellFormed) {mode : PassMode} {r : PassResult}
    (h : w.Leaves mode r) : w.Reports r := by
  cases h with
  | cleaned outcome completed hover => exact hw.reports_main .cleanup hover
  | reconciled outcome completed hover => exact hw.reports_main .reconcile hover
  | removed outcome cleaned completed removed hover hremoved =>
    exact hw.reports_removal hover hremoved

theorem WellFormed.mem_topologicalOrder {w : Workflow I} (hw : w.WellFormed)
    (n : WorkflowNode I) (hn : n ∈ w.nodes) : n.node.name ∈ w.topologicalOrder := by
  obtain ⟨i, hi, rfl⟩ := List.mem_iff_getElem.mp hn
  have hname : w.nameAt i = w.nodes[i].node.name := by
    unfold nameAt nodeAt?
    rw [List.getElem?_eq_getElem hi]
    rfl
  rw [← hname]
  exact List.mem_map_of_mem ((hw.mem_topological i).mpr hi)

/-- Every node has an outcome that leaves nothing to do for it. -/
structure Settles (w : Workflow I) (r : PassResult) : Prop where
  settled : ∀ n ∈ w.nodes, ∃ o, r.outcome? n.node.name = some o ∧ o.isSettled = true
  errored : r.errored = []
  notReady : r.notReady = []
  unreached : r.unreached = []

/-- A ready result has no recorded outcome that keeps it from being ready. -/
theorem Reports.isSettled_of_mem {w : Workflow I} (hw : w.WellFormed) {r : PassResult}
    (h : w.Reports r) (hready : r.allReady = true) (name : String) (o : NodeOutcome)
    (hmem : (name, o) ∈ r.recorded) : o.isSettled = true := by
  obtain ⟨es, hrecords⟩ := h.records
  have hmem' := hmem
  rw [hrecords.named] at hmem'
  obtain ⟨e, he, heq⟩ := List.mem_map.mp hmem'
  have hdeclared : name ∈ r.declared := by
    obtain ⟨rfl, _⟩ := Prod.mk.inj heq
    rw [h.declared]
    exact List.mem_map_of_mem ((hw.mem_topological e.1).mpr (hrecords.ids_lt e he))
  have houtcome : r.outcome? name = some o :=
    Association.lookup_of_mem _ (hrecords.completionOrder_nodup hw) name o hmem
  have hall := List.all_eq_true.mp hready name hdeclared
  rwa [houtcome, Option.any_some] at hall

/-- A pass that leaves every declared name settled has settled the nodes of the workflow. -/
theorem Reports.settles {w : Workflow I} (hw : w.WellFormed) {r : PassResult} (h : w.Reports r)
    (hready : r.allReady = true) : w.Settles r := by
  have hsettled := fun e (he : e ∈ r.recorded) => h.isSettled_of_mem hw hready e.1 e.2 he
  have hdeclared := List.all_eq_true.mp hready
  refine ⟨fun n hn => ?_, ?_, ?_, ?_⟩
  · have hany := hdeclared n.node.name (by rw [h.declared]; exact hw.mem_topologicalOrder n hn)
    exact (Option.any_eq_true _ _).mp hany
  · refine List.filterMap_eq_nil_iff.mpr fun e he => ?_
    rw [e.2.error?_eq_none (hsettled e he)]
    rfl
  · unfold PassResult.notReady PassResult.namesWhere
    rw [List.map_eq_nil_iff, List.filter_eq_nil_iff]
    intro e he
    rw [e.2.isNotReady_eq_false (hsettled e he)]
    exact Bool.false_ne_true
  · refine List.filter_eq_nil_iff.mpr fun name hname => ?_
    have hany := hdeclared name hname
    cases houtcome : r.outcome? name with
    | some o => exact Bool.false_ne_true
    | none =>
      rw [houtcome] at hany
      cases hany

end Workflow
end Reconciliation
