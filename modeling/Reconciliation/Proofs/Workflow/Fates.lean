import Reconciliation.Proofs.Workflow.Drive

/-!
The fates of the nodes after a walk. What a walk that is over says of its nodes, together with
the marks and the inactive nodes that are found afterwards, follows node by node along the
order; so it is what the evaluation of one node after another finds.
-/
namespace Reconciliation

namespace Workflow
variable {I : Interface} {w : Workflow I} {β : Type}

/-- What follows from predecessors can be evaluated along the order. -/
theorem WellFormed.grounded_topological (hw : w.WellFormed) (step : (Nat → β) → Nat → β)
    (hstep : ∀ f g i, (∀ p ∈ w.predecessorsAt i, f p = g p) → step f i = step g i) :
    Grounded step w.topological := by
  intro before i after heq f g hfg
  exact hstep f g i fun p hp => hfg p (hw.earlier before i after heq p hp)

/-- What follows from successors can be evaluated along the reverse order. -/
theorem WellFormed.grounded_reverse (hw : w.WellFormed) (step : (Nat → β) → Nat → β)
    (hstep : ∀ f g i, (∀ s ∈ w.successorsAt i, f s = g s) → step f i = step g i) :
    Grounded step w.topological.reverse := by
  intro before i after heq f g hfg
  exact hstep f g i fun s hs => hfg s (hw.later before i after heq s hs)

theorem any_eq_of_forall_mem (xs : List Nat) (f g : Nat → Bool) (h : ∀ x ∈ xs, f x = g x) :
    xs.any f = xs.any g := by
  induction xs with
  | nil => rfl
  | cons x rest ih =>
    rw [List.any_cons, List.any_cons, h x List.mem_cons_self,
      ih fun y hy => h y (List.mem_cons_of_mem x hy)]

theorem all_eq_of_forall_mem (xs : List Nat) (f g : Nat → Bool) (h : ∀ x ∈ xs, f x = g x) :
    xs.all f = xs.all g := by
  induction xs with
  | nil => rfl
  | cons x rest ih =>
    rw [List.all_cons, List.all_cons, h x List.mem_cons_self,
      ih fun y hy => h y (List.mem_cons_of_mem x hy)]

/-- Whether a node is marked, given its predecessors. -/
def markOf (w : Workflow I) (completed : List (Nat × NodeOutcome)) (marked : Nat → Bool)
    (i : Nat) : Bool :=
  (completed.lookup i).any NodeOutcome.isDeleted || (w.predecessorsAt i).any marked

theorem WellFormed.marked_evaluated (hw : w.WellFormed) (completed : List (Nat × NodeOutcome)) :
    (w.marked completed).contains =
      evaluateAlong (w.markOf completed) (fun _ => false) w.topological :=
  collect_contains (w.markOf completed) List.cons contains_cons_eq_update
    (w.markAlong completed) (fun _ => rfl) (fun _ _ _ => rfl) w.topological [] hw.nodup
    fun _ _ => List.not_mem_nil

/-- The marked nodes are those whose precondition failed and all nodes below them. -/
theorem WellFormed.marked_contains (hw : w.WellFormed) (completed : List (Nat × NodeOutcome))
    (i : Nat) (hi : i < w.nodes.length) :
    (w.marked completed).contains i = w.markOf completed (w.marked completed).contains i := by
  have hgrounded := hw.grounded_topological (w.markOf completed) fun f g i hfg => by
    unfold markOf
    rw [any_eq_of_forall_mem _ _ _ hfg]
  rw [hw.marked_evaluated completed]
  exact evaluateAlong_fixed _ _ hgrounded hw.nodup _ i ((hw.mem_topological i).mpr hi)

/-- Whether a node without an outcome is inactive, given its predecessors. -/
def inactivityOf (w : Workflow I) (completed : List (Nat × NodeOutcome)) (marked : List Nat)
    (inactive : Nat → Bool) (i : Nat) : Bool :=
  (completed.lookup i).isNone && !marked.contains i &&
    (w.predecessorsAt i).any fun p =>
      inactive p || (completed.lookup p).any NodeOutcome.isSkipped

theorem WellFormed.inactive_evaluated (hw : w.WellFormed)
    (completed : List (Nat × NodeOutcome)) (marked : List Nat) :
    (w.inactive completed marked).contains =
      evaluateAlong (w.inactivityOf completed marked) (fun _ => false) w.topological :=
  collect_contains (w.inactivityOf completed marked) (fun i xs => xs ++ [i])
    contains_concat_eq_update (w.inactiveAlong completed marked) (fun _ => rfl)
    (fun _ _ _ => rfl) w.topological [] hw.nodup fun _ _ => List.not_mem_nil

theorem WellFormed.inactive_contains (hw : w.WellFormed)
    (completed : List (Nat × NodeOutcome)) (marked : List Nat) (i : Nat)
    (hi : i < w.nodes.length) :
    (w.inactive completed marked).contains i =
      w.inactivityOf completed marked (w.inactive completed marked).contains i := by
  have hgrounded := hw.grounded_topological (w.inactivityOf completed marked)
    fun f g i hfg => by
      unfold inactivityOf
      rw [any_eq_of_forall_mem _ _ _ fun p hp => by rw [hfg p hp]]
  rw [hw.inactive_evaluated completed marked]
  exact evaluateAlong_fixed _ _ hgrounded hw.nodup _ i ((hw.mem_topological i).mpr hi)

theorem WellFormed.lt_of_inactive (hw : w.WellFormed) (completed : List (Nat × NodeOutcome))
    (marked : List Nat) (i : Nat) (hi : i ∈ w.inactive completed marked) :
    i < w.nodes.length := by
  rw [← hw.mem_topological]
  by_contra hnot
  rw [← List.contains_iff_mem, hw.inactive_evaluated, evaluateAlong_of_notMem _ _ _ _ hnot] at hi
  cases hi

/-- The outcome that the visit of a node reports in a walk. -/
def visitedAt (w : Workflow I) (answers : String → NodeAnswers) (mode : PassMode) (i : Nat) :
    NodeOutcome :=
  (answers (w.nameAt i)).visited mode

/-- What a walk and the marks and inactive nodes after it say of a node. -/
def observed (w : Workflow I) (completed : List (Nat × NodeOutcome)) (i : Nat) : Fate :=
  if (w.marked completed).contains i then .marked
  else
    match completed.lookup i with
    | some o => .reached o
    | none =>
      if (w.inactive completed (w.marked completed)).contains i then .reached .skippedInactive
      else .blocked

theorem isMarked_observed (w : Workflow I) (completed : List (Nat × NodeOutcome)) (i : Nat) :
    (w.observed completed i).isMarked = (w.marked completed).contains i := by
  unfold observed
  cases (w.marked completed).contains i with
  | true => rfl
  | false =>
    cases completed.lookup i with
    | some o => rfl
    | none =>
      rw [if_neg (by decide)]
      dsimp only
      split <;> rfl

theorem succeeded_observed (w : Workflow I) (completed : List (Nat × NodeOutcome)) (i : Nat)
    (hmark : (w.marked completed).contains i = false) :
    (w.observed completed i).outcome?.any NodeOutcome.isSucceeded =
      (completed.lookup i).any NodeOutcome.isSucceeded := by
  unfold observed
  rw [hmark, if_neg (by decide)]
  cases completed.lookup i with
  | some o => rfl
  | none =>
    dsimp only
    split <;> rfl

/-- An unmarked node is skipped if it is found inactive or its visit says so. -/
theorem WellFormed.skipped_observed (hw : w.WellFormed)
    (completed : List (Nat × NodeOutcome)) (i : Nat) (hi : i < w.nodes.length)
    (hmark : (w.marked completed).contains i = false) :
    (w.observed completed i).outcome?.any NodeOutcome.isSkipped =
      ((w.inactive completed (w.marked completed)).contains i ||
        (completed.lookup i).any NodeOutcome.isSkipped) := by
  have hinactive := hw.inactive_contains completed (w.marked completed) i hi
  unfold observed
  rw [hmark, if_neg (by decide)]
  cases hlook : completed.lookup i with
  | some o =>
    rw [hinactive]
    unfold inactivityOf
    rw [hlook]
    rfl
  | none =>
    dsimp only
    cases (w.inactive completed (w.marked completed)).contains i <;> rfl

/-- What is observed of a node without marked predecessors that ran. -/
theorem WellFormed.observed_of_lookup (hw : w.WellFormed) (answers : String → NodeAnswers)
    (completed : List (Nat × NodeOutcome)) (i : Nat) (hi : i < w.nodes.length)
    (hbelow : (w.predecessorsAt i).any (w.marked completed).contains = false)
    (hran : completed.lookup i = some (w.visitedAt answers .reconcile i)) :
    w.observed completed i =
      (answers (w.nameAt i)).reconciled.elim .marked Fate.reached := by
  have hmark := hw.marked_contains completed i hi
  unfold markOf at hmark
  rw [hbelow, Bool.or_false] at hmark
  unfold visitedAt NodeAnswers.visited at hran
  dsimp only at hran
  unfold observed
  cases hreconciled : (answers (w.nameAt i)).reconciled with
  | none =>
    rw [hreconciled] at hran
    rw [hran] at hmark
    rw [hmark]
    rfl
  | some o =>
    rw [hreconciled] at hran
    rw [hran, Option.any_some, Option.getD_some,
      (answers (w.nameAt i)).reconciled_unmarked o hreconciled] at hmark
    rw [hmark, hran]
    rfl

/-- What is observed of a node without marked predecessors that did not run. -/
theorem WellFormed.observed_of_lookup_eq_none (hw : w.WellFormed)
    (completed : List (Nat × NodeOutcome)) (i : Nat) (hi : i < w.nodes.length)
    (hbelow : (w.predecessorsAt i).any (w.marked completed).contains = false)
    (hran : completed.lookup i = none) :
    w.observed completed i =
      if (w.predecessorsAt i).any (fun p =>
        (w.inactive completed (w.marked completed)).contains p ||
          (completed.lookup p).any NodeOutcome.isSkipped) then .reached .skippedInactive
      else .blocked := by
  have hmark := hw.marked_contains completed i hi
  have hinactive := hw.inactive_contains completed (w.marked completed) i hi
  unfold markOf at hmark
  rw [hbelow, hran] at hmark
  unfold inactivityOf at hinactive
  rw [hran, hmark] at hinactive
  unfold observed
  rw [hmark, hran, if_neg (by decide)]
  dsimp only
  rw [hinactive]
  rfl

/-- Along a reconcile walk that is over, the fate of every node follows from its
predecessors. -/
theorem WellFormed.observed_follows (hw : w.WellFormed) (answers : String → NodeAnswers)
    (completed : List (Nat × NodeOutcome))
    (hover : (w.walk .reconcile).Finished (w.visitedAt answers .reconcile) completed) (i : Nat)
    (hi : i < w.nodes.length) :
    w.observed completed i = w.fateOf answers (w.observed completed) i := by
  unfold fateOf
  rw [any_eq_of_forall_mem _ _ _ fun p _ => w.isMarked_observed completed p]
  cases hbelow : (w.predecessorsAt i).any (w.marked completed).contains with
  | true =>
    have hmark := hw.marked_contains completed i hi
    unfold markOf at hmark
    rw [hbelow, Bool.or_true] at hmark
    unfold observed
    rw [hmark, if_pos rfl, if_pos rfl]
  | false =>
    have hclear : ∀ p ∈ w.predecessorsAt i, (w.marked completed).contains p = false := by
      intro p hp
      rw [List.any_eq_false] at hbelow
      exact Bool.eq_false_iff.mpr (hbelow p hp)
    rw [if_neg (by decide),
      all_eq_of_forall_mem _ _ _ fun p hp => w.succeeded_observed completed p (hclear p hp),
      any_eq_of_forall_mem _ _ _ fun p hp =>
        hw.skipped_observed completed p (hw.predecessor_lt i p hp) (hclear p hp)]
    have hover := hover.lookup i hi
    change completed.lookup i = if ((w.predecessorsAt i).all fun p =>
      (completed.lookup p).any NodeOutcome.isSucceeded) = true then _ else _ at hover
    cases hall : (w.predecessorsAt i).all fun p =>
        (completed.lookup p).any NodeOutcome.isSucceeded with
    | true =>
      rw [hall, if_pos rfl] at hover
      rw [if_pos rfl, hw.observed_of_lookup answers completed i hi hbelow hover]
      cases (answers (w.nameAt i)).reconciled <;> rfl
    | false =>
      rw [hall, if_neg (by decide)] at hover
      rw [if_neg (by decide)]
      exact hw.observed_of_lookup_eq_none completed i hi hbelow hover

/-- The walk over all nodes and the evaluation of one node after another agree on each node. -/
theorem WellFormed.fates_eq (hw : w.WellFormed) (answers : String → NodeAnswers)
    (completed : List (Nat × NodeOutcome))
    (hover : (w.walk .reconcile).Finished (w.visitedAt answers .reconcile) completed) (i : Nat)
    (hi : i < w.nodes.length) :
    w.fates answers i = w.observed completed i := by
  have hgrounded := hw.grounded_topological (w.fateOf answers) fun f g i hfg => by
    unfold fateOf
    rw [any_eq_of_forall_mem _ _ _ fun p hp => by rw [hfg p hp],
      all_eq_of_forall_mem _ _ _ fun p hp => by rw [hfg p hp],
      any_eq_of_forall_mem _ (fun p => (f p).outcome?.any NodeOutcome.isSkipped) _
        fun p hp => by rw [hfg p hp]]
  refine evaluateAlong_eq _ _ hgrounded _ _ (fun j hj => ?_) i ((hw.mem_topological i).mpr hi)
  exact hw.observed_follows answers completed hover j ((hw.mem_topological j).mp hj)

/-- A node that ran is marked if its precondition failed and not otherwise. -/
theorem WellFormed.marked_of_lookup (hw : w.WellFormed) (outcome : Nat → NodeOutcome)
    (completed : List (Nat × NodeOutcome))
    (hover : (w.walk .reconcile).Finished outcome completed) :
    ∀ i < w.nodes.length, ∀ o, completed.lookup i = some o →
      (w.marked completed).contains i = o.isDeleted := by
  refine hw.downward _ fun i hi hpred o ho => ?_
  have heligible : (w.walk .reconcile).isEligible completed i = true := by
    by_contra hnot
    rw [hover.lookup i hi, if_neg hnot] at ho
    cases ho
  have hbelow : (w.predecessorsAt i).any (w.marked completed).contains = false := by
    rw [List.any_eq_false]
    intro p hp
    have hran := ((w.walk .reconcile).isEligible_iff completed i).mp heligible
    obtain ⟨o', ho', hlets⟩ := (Option.any_eq_true _ _).mp (hran.2 p hp)
    have hsucceeded : o'.isSucceeded = true := hlets
    rw [hpred p hp o' ho']
    cases o' with
    | succeeded operations => exact Bool.false_ne_true
    | skippedInactive | deleted operations | notReady operations reason | errored error =>
      cases hsucceeded
  rw [hw.marked_contains completed i hi]
  unfold markOf
  rw [hbelow, ho, Option.any_some, Bool.or_false]

/-- What a reconcile walk that is over records of a node, unless the node is marked. -/
theorem WellFormed.outcome_observed (hw : w.WellFormed) (outcome : Nat → NodeOutcome)
    (completed : List (Nat × NodeOutcome))
    (hover : (w.walk .reconcile).Finished outcome completed) (i : Nat)
    (hi : i < w.nodes.length) :
    (w.observed completed i).outcome? =
      ((completed.lookup i).filter fun o => !o.isDeleted).or
        (if (w.inactive completed (w.marked completed)).contains i = true then
          some .skippedInactive
        else none) := by
  have hinactive := hw.inactive_contains completed (w.marked completed) i hi
  unfold inactivityOf at hinactive
  unfold observed
  cases hlook : completed.lookup i with
  | some o =>
    rw [hw.marked_of_lookup outcome completed hover i hi o hlook]
    rw [hlook, Option.isNone_some, Bool.false_and, Bool.false_and] at hinactive
    rw [hinactive]
    cases hdeleted : o.isDeleted with
    | true =>
      rw [Option.filter_some_neg (by rw [hdeleted]; rfl)]
      rfl
    | false =>
      rw [Option.filter_some_pos (by rw [hdeleted]; rfl)]
      rfl
  | none =>
    rw [hlook, Option.isNone_none, Bool.true_and] at hinactive
    cases hmark : (w.marked completed).contains i with
    | true =>
      rw [hmark, Bool.not_true, Bool.false_and] at hinactive
      rw [hinactive]
      rfl
    | false =>
      cases (w.inactive completed (w.marked completed)).contains i <;> rfl

/-- Along a cleanup walk that is over, the outcome of every node follows from its
successors. -/
theorem WellFormed.clearing_eq (hw : w.WellFormed) (answers : String → NodeAnswers)
    (scope scope' : Nat → Bool) (hscope : ∀ i < w.nodes.length, scope i = scope' i)
    (completed : List (Nat × NodeOutcome))
    (hover : ({ workflow := w, mode := .cleanup, scope } : Walk I).Finished
      (w.visitedAt answers .cleanup) completed) (i : Nat) (hi : i < w.nodes.length) :
    w.clearing answers scope' i = completed.lookup i := by
  have hgrounded := hw.grounded_reverse (w.clearingOf answers scope') fun f g i hfg => by
    unfold clearingOf
    rw [all_eq_of_forall_mem _ _ _ fun s hs => by rw [hfg s hs]]
  refine evaluateAlong_eq _ _ hgrounded _ (fun j => completed.lookup j) (fun j hj => ?_) i
    (List.mem_reverse.mpr ((hw.mem_topological i).mpr hi))
  have hj := (hw.mem_topological j).mp (List.mem_reverse.mp hj)
  rw [hover.lookup j hj]
  unfold clearingOf
  rw [← hscope j hj, all_eq_of_forall_mem _ _
    (fun s => !scope s || (completed.lookup s).any NodeOutcome.isSettled)
    fun s hs => by rw [hscope s (hw.successor_lt j s hs)]]
  rfl

end Workflow
end Reconciliation
