import Reconciliation.Proofs.Workflow.Telling

/-!
The order of a cleanup pass. A cleanup walk goes from the leaves up: whatever is answered and when,
a node is deleted only after all nodes that depend on it are done with, and nothing happens above a
node that is not. What the walk does with the marked nodes of a reconcile pass is the same, as the
marks reach down to the leaves.
-/
namespace Reconciliation

open Relation

/-- The node is gone, or it was never there. -/
def NodeOutcome.IsGone (o : NodeOutcome) : Prop := o.isSucceeded = true ∨ o.isSkipped = true

/-- The node is still there. -/
def NodeOutcome.IsStuck (o : NodeOutcome) : Prop := o.isNotReady = true ∨ o.isErrored = true

theorem NodeOutcome.isSettled_of_isGone (o : NodeOutcome) (h : o.IsGone) : o.isSettled = true := by
  unfold IsGone at h
  cases o <;> simp_all [isSucceeded, isSkipped, isSettled]

theorem NodeOutcome.isGone_of_isSettled (o : NodeOutcome) (h : o.isSettled = true)
    (hdeleted : o.isDeleted = false) : o.IsGone := by
  unfold IsGone
  cases o <;> simp_all [isSucceeded, isSkipped, isSettled, isDeleted]

theorem NodeOutcome.isSettled_of_isStuck (o : NodeOutcome) (h : o.IsStuck) :
    o.isSettled = false := by
  unfold IsStuck at h
  cases o <;> simp_all [isNotReady, isErrored, isSettled]

namespace Walk
variable {I : Interface}

/-- A cleanup walk whose scope reaches down from each of its nodes to the leaves. -/
structure Upward (w : Walk I) : Prop where
  mode : w.mode = .cleanup
  closed : ∀ i, w.scope i = true → ∀ j ∈ w.workflow.successorsAt i, w.scope j = true

namespace Upward
variable {w : Walk I} (hup : w.Upward)
include hup

theorem mem_upstream (i j : Nat) (hi : w.scope i = true) :
    j ∈ w.upstream i ↔ j ∈ w.workflow.successorsAt i := by
  unfold upstream
  rw [hup.mode]
  dsimp only
  rw [List.mem_filter]
  exact and_iff_left_of_imp fun hj => hup.closed i hi j hj

theorem lets_eq (o : NodeOutcome) : w.lets o = o.isSettled := by
  unfold lets
  rw [hup.mode]

/-- What is below a node in scope is in scope, and the node waits for it. -/
theorem upstream_of_below (hw : w.workflow.WellFormed) (i j : Nat) (h : w.workflow.Below i j)
    (hi : w.scope i = true) :
    w.scope j = true ∧ TransGen (fun p i => p ∈ w.upstream i) j i := by
  induction h with
  | single hp =>
    have hsucc := (hw.mutual_iff _ _).mp hp
    exact ⟨hup.closed i hi _ hsucc, .single ((hup.mem_upstream i _ hi).mpr hsucc)⟩
  | @tail k j _ hp ih =>
    have hsucc := (hw.mutual_iff _ _).mp hp
    exact ⟨hup.closed k ih.1 j hsucc, .head ((hup.mem_upstream k j ih.1).mpr hsucc) ih.2⟩

section
variable {primary : ManagedObject} {ctx : Context} {journal : List Event}
  (h : Warranted (w.Permits primary ctx) [] journal)
include h

theorem precondition_not_asked (i : Nat) :
    .noticed i (.asked (.check .reconcilePrecondition)) ∉ journal := by
  intro hn
  obtain ⟨gates, hgates⟩ := gates_of_asked h hn
  rw [hup.mode] at hgates
  cases hgates

theorem isDeleted_eq_false {i : Nat} {o : NodeOutcome} (ho : .finished i o ∈ journal) :
    o.isDeleted = false := by
  rw [← Bool.not_eq_true]
  intro hdeleted
  have hanswered := (fits_of_finished h ho).deleted_iff.mp hdeleted
  exact hup.precondition_not_asked h i (asked_of_answered h ((mem_noticesOf _ _ _).mp hanswered))

/-- When a node gives notice of anything, the nodes that depend on it are gone. -/
theorem gone_before {before after : List Event} {i : Nat} {n : Node.Notice}
    (heq : journal = before ++ .noticed i n :: after) :
    ∀ j ∈ w.workflow.successorsAt i, ∃ o : NodeOutcome, o.IsGone ∧ .finished j o ∈ before := by
  intro j hj
  have hi : w.scope i = true := by
    refine (scope_of_started h (started_of_noticed h (n := n) ?_)).2
    rw [heq]
    exact List.mem_append_right _ List.mem_cons_self
  obtain ⟨o, hlets, ho⟩ := finished_upstream h heq j ((hup.mem_upstream i j hi).mpr hj)
  rw [hup.lets_eq] at hlets
  have hmem : .finished j o ∈ journal := heq ▸ List.mem_append_left _ ho
  exact ⟨o, o.isGone_of_isSettled hlets (hup.isDeleted_eq_false h hmem), ho⟩

/-- Nothing starts above a node that is still there. -/
theorem not_started_above (hw : w.workflow.WellFormed) {i j : Nat} (hbelow : w.workflow.Below i j)
    {o : NodeOutcome} (ho : .finished j o ∈ journal) (hstuck : o.IsStuck) :
    .started i ∉ journal := by
  intro hi
  have hscope := (scope_of_started h hi).2
  obtain ⟨before, after, heq⟩ := List.append_of_mem hi
  obtain ⟨o', hlets, ho'⟩ := finished_above h (hup.upstream_of_below hw i j hbelow hscope).2 before
    after heq
  have hmem : .finished j o' ∈ journal := heq ▸ List.mem_append_left _ ho'
  rw [finished_unique h hmem ho, hup.lets_eq, o.isSettled_of_isStuck hstuck] at hlets
  cases hlets

/-- A node is deleted only where its conditions were found to hold, or are absent. -/
theorem holds_of_delete {before after : List Event} {i : Nat}
    (heq : journal = before ++ .noticed i (.asked .delete) :: after) :
    ∃ node, w.workflow.nodeAt? i = some node ∧
      node.node.Holds primary ctx (noticesOf i before) .activation ∧
      node.node.Holds primary ctx (noticesOf i before) .cleanupReady := by
  obtain ⟨node, gates, hnode, hgates, hheld⟩ := holds_of_asked h heq
  rw [hup.mode] at hgates
  cases hgates
  exact ⟨node, hnode, hheld _ List.mem_cons_self,
    hheld _ (List.mem_cons_of_mem _ List.mem_cons_self)⟩

/-- A node that has succeeded was deleted, and one that was skipped was not. -/
theorem deleted_of_finished {i : Nat} {o : NodeOutcome} (ho : .finished i o ∈ journal) :
    (o.isSucceeded = true → .noticed i (.asked .delete) ∈ journal) ∧
      (o.isSkipped = true → .noticed i (.asked .delete) ∉ journal) := by
  have hfits := fits_of_finished h ho
  rw [hup.mode] at hfits
  refine ⟨fun hsucceeded => ?_, fun hskipped hn => ?_⟩
  · exact (mem_noticesOf _ _ _).mp (hfits.performed hsucceeded)
  · exact hfits.spared (Or.inr hskipped) ((mem_noticesOf _ _ _).mpr hn)

end

/-- When the walk is over, a node in scope below which everything is gone has finished. -/
theorem finished_of_gone {primary : ManagedObject} {ctx : Context} {journal : List Event}
    {d : Announced I} (h : w.Accounts primary ctx journal d) (hover : d.isOver = true) (i : Nat)
    (hi : i < w.workflow.nodes.length) (hscope : w.scope i = true)
    (hgone : ∀ j ∈ w.workflow.successorsAt i, ∃ o : NodeOutcome,
      o.IsGone ∧ .finished j o ∈ journal) : ∃ o, .finished i o ∈ journal := by
  refine h.complete hover i hi hscope fun j hj => ?_
  obtain ⟨o, hgone, ho⟩ := hgone j ((hup.mem_upstream i j hscope).mp hj)
  exact ⟨o, (hup.lets_eq o).trans (o.isSettled_of_isGone hgone), ho⟩

end Upward
end Walk

namespace Workflow
variable {I : Interface} {σ : Type} {w : Workflow I} {env : Environment I σ}
  {primary : ManagedObject} {ctx : Context} {s₀ s : σ} {stage : Stage}
  {journal removal : List Walk.Event}

/-- A cleanup pass goes up over all nodes. -/
theorem upward_cleanup (w : Workflow I) : (w.walk .cleanup).Upward := ⟨rfl, fun _ _ _ _ => rfl⟩

/-- What the journal of a cleanup pass keeps to. -/
structure TakenDown (w : Workflow I) (primary : ManagedObject) (ctx : Context) (stage : Stage)
    (journal : List Walk.Event) : Prop where
  /-- A node is deleted only after every node that depends on it has finished and is gone. -/
  ordered : ∀ before i after, journal = before ++ .noticed i (.asked .delete) :: after →
    ∀ j ∈ w.successorsAt i, ∃ o : NodeOutcome, o.IsGone ∧ .finished j o ∈ before
  /-- A node is deleted only where its conditions were found to hold, or are absent. -/
  held : ∀ before i after, journal = before ++ .noticed i (.asked .delete) :: after →
    ∃ node, w.nodeAt? i = some node ∧
      node.node.Holds primary ctx (Walk.noticesOf i before) .activation ∧
      node.node.Holds primary ctx (Walk.noticesOf i before) .cleanupReady
  once : ∀ i, Walk.Once journal (.noticed i (.asked .delete))
  /-- Nothing starts above a node that is still there. -/
  spared : ∀ i j o, w.Below i j → .finished j o ∈ journal → o.IsStuck → .started i ∉ journal
  /-- The result holds for each node what the node has finished with. -/
  recorded : ∀ r, stage = .over r → ∀ i < w.nodes.length, ∀ o,
    r.outcome? (w.nameAt i) = some o ↔ .finished i o ∈ journal
  /-- Every node below which everything is gone has an outcome. -/
  complete : ∀ r, stage = .over r → ∀ i < w.nodes.length,
    (∀ j ∈ w.successorsAt i, ∃ o : NodeOutcome, o.IsGone ∧ .finished j o ∈ journal) →
      ∃ o, r.outcome? (w.nameAt i) = some o
  /-- If all is ready in the end, then exactly the nodes that were not skipped were deleted. -/
  ready : ∀ r, stage = .over r → r.allReady = true → ∀ i < w.nodes.length,
    .noticed i (.asked .delete) ∈ journal ↔
      r.outcome? (w.nameAt i) ≠ some .skippedInactive
  unasked : ∀ i, .noticed i (.asked (.check .reconcilePrecondition)) ∉ journal

/-- The result of a cleanup pass holds for each node what the node has finished with. -/
theorem Chronicle.outcome_cleanup (hw : w.WellFormed) {r : PassResult}
    (h : w.Chronicle env .cleanup primary ctx s₀ (.over r) journal removal s) (i : Nat)
    (hi : i < w.nodes.length) (o : NodeOutcome) :
    r.outcome? (w.nameAt i) = some o ↔ .finished i o ∈ journal := by
  cases h with
  | removed _ _ _ _ _ hmode => cases hmode
  | walked _ d _ h hover =>
    have haccounts := h.accounts hw
    obtain ⟨outcome, htidy⟩ := haccounts.tidy
    have hfinished := htidy.finished hover
    have hrecords : w.Records (w.mainResult .cleanup d.completed) _ :=
      w.records_ran .cleanup outcome d.completed hfinished
    rw [← haccounts.lookup_eq_some hover, hrecords.outcome?_nameAt hw i hi,
      Association.lookup_filter _ hfinished.nodup fun o => !o.isDeleted,
      Option.filter_eq_some_iff]
    refine and_iff_left_of_imp fun ho => ?_
    rw [w.upward_cleanup.isDeleted_eq_false haccounts.warranted
      ((haccounts.lookup_eq_some hover i o).mp ho)]
    rfl

/-- In a cleanup pass no other walk follows the one over all nodes. -/
theorem Chronicle.removal_cleanup
    (h : w.Chronicle env .cleanup primary ctx s₀ stage journal removal s) : removal = [] := by
  cases h with
  | walking | walked => rfl
  | removing _ _ _ _ _ hmode | removed _ _ _ _ _ hmode => cases hmode

theorem Chronicle.declared_cleanup {r : PassResult}
    (h : w.Chronicle env .cleanup primary ctx s₀ (.over r) journal removal s) :
    r.declared = w.topologicalOrder := by
  cases h with
  | removed _ _ _ _ _ hmode => cases hmode
  | walked _ d => exact w.declared_mainResult .cleanup d.completed

/-- In a cleanup pass every node waits for all nodes that depend on it, and none is deleted
twice. -/
theorem Chronicle.takenDown (hw : w.WellFormed)
    (h : w.Chronicle env .cleanup primary ctx s₀ stage journal removal s) :
    w.TakenDown primary ctx stage journal := by
  obtain ⟨d, s₁, hmain, hover⟩ := h.main
  have hup := w.upward_cleanup
  have haccounts := hmain.accounts hw
  have hwarranted := haccounts.warranted
  constructor
  case ordered => exact fun _ _ _ heq => hup.gone_before hwarranted heq
  case held => exact fun _ _ _ heq => hup.holds_of_delete hwarranted heq
  case once => exact fun i => Walk.asked_once hwarranted i _
  case spared =>
    exact fun _ _ _ hbelow ho hstuck => hup.not_started_above hwarranted hw hbelow ho hstuck
  case recorded =>
    rintro r rfl i hi o
    exact h.outcome_cleanup hw i hi o
  case complete =>
    rintro r rfl i hi hgone
    obtain ⟨o, ho⟩ := hup.finished_of_gone haccounts (hover nofun) i hi rfl hgone
    exact ⟨o, (h.outcome_cleanup hw i hi o).mpr ho⟩
  case ready =>
    rintro r rfl hready i hi
    have hdeclared : w.nameAt i ∈ r.declared := by
      rw [h.declared_cleanup]
      exact List.mem_map_of_mem ((hw.mem_topological i).mpr hi)
    obtain ⟨o, houtcome, hsettled⟩ :=
      (Option.any_eq_true _ _).mp (List.all_eq_true.mp hready _ hdeclared)
    have ho := (h.outcome_cleanup hw i hi o).mp houtcome
    obtain ⟨hdeleted, hspared⟩ := hup.deleted_of_finished hwarranted ho
    rw [houtcome]
    rcases o.isGone_of_isSettled hsettled (hup.isDeleted_eq_false hwarranted ho) with ho | ho
    · refine iff_of_true (hdeleted ho) ?_
      rintro ⟨⟩
      cases ho
    · refine iff_of_false (hspared ho) fun hne => hne ?_
      cases o with
      | skippedInactive => rfl
      | _ => cases ho
  case unasked => exact hup.precondition_not_asked hwarranted

end Workflow
end Reconciliation
