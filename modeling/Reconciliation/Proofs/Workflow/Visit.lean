import Reconciliation.Proofs.Task.Returns
import Reconciliation.Proofs.Workflow.Sequential
import Reconciliation.Workflow.Visit

/-!
Visits of nodes with fixed answers. If a node always gives the same answers, whenever and in
whatever state it is asked, then every visit of it has the same outcome.
-/
namespace Reconciliation

namespace Task
variable {I : Interface} {ε α β σ : Type}

theorem eq_of_returns_done (env : Environment I σ) (a b : α)
    (h : (Task.done a : Task I ε α).Returns env b) : b = a := by
  cases h
  rfl

/-- A value of a sequence comes from a value of its first part. -/
theorem returns_bind (env : Environment I σ) (t : Task I ε α) (f : α → Task I ε β) (b : β)
    (h : (t.bind f).Returns env b) : ∃ a, t.Returns env a ∧ (f a).Returns env b := by
  induction t with
  | done a => exact ⟨a, .done a, h⟩
  | call c k ih =>
    cases h with
    | call _ _ now s _ h =>
      obtain ⟨a, ha, hb⟩ := ih _ h
      exact ⟨a, .call c k now s a ha, hb⟩
  | group ms k ih =>
    cases h with
    | group _ _ rs _ hms h =>
      obtain ⟨a, ha, hb⟩ := ih rs h
      exact ⟨a, .group ms k rs a hms ha, hb⟩

theorem returns_ofAction (env : Environment I σ) (t : Action I α) (a : α)
    (h : (ofAction t : Task I ε α).Returns env a) : t.Returns env a := by
  induction t with
  | done b =>
    obtain rfl := eq_of_returns_done env b a h
    exact .done a
  | call c k ih =>
    cases h with
    | call _ _ now s _ h => exact .call c k now s a (ih _ h)

end Task

namespace Node
variable {I : Interface} {σ : Type}

/-- The node gives these answers in every state of the environment. -/
structure Answers (env : Environment I σ) (primary : ManagedObject) (ctx : Context)
    (n : Node I) (a : NodeAnswers) : Prop where
  check : ∀ kind, Option.Rel (fun action answer => ∀ r, action.Returns env r → r = answer)
    (n.check kind primary ctx) (a.check kind)
  reconcile : ∀ r, (n.reconcile primary ctx).Returns env r → r = a.reconcile
  delete : ∀ r, (n.delete primary ctx).Returns env r → r = a.delete

/-- With a fixed answer to its condition, a gate has the outcome that is evaluated for that
answer. -/
theorem gate_returns (env : Environment I σ) (check : Option (Action I (Except Error Bool)))
    (answer : Option (Except Error Bool))
    (hcheck : Option.Rel (fun action answer => ∀ r, action.Returns env r → r = answer)
      check answer)
    (operations : Operations) (closed expected : NodeOutcome)
    (proceed : Task I Error NodeOutcome) (hproceed : ∀ o, proceed.Returns env o → o = expected)
    (o : NodeOutcome) (h : (gate check operations closed proceed).Returns env o) :
    o = NodeAnswers.gated answer (fun e => .notReady operations e.message) closed expected := by
  cases hcheck with
  | none => exact hproceed o h
  | some hreturns =>
    rename_i action fixed
    obtain ⟨r, hr, ho⟩ := Task.returns_bind env _ _ o h
    obtain rfl := hreturns r (Task.returns_ofAction env action r hr)
    rcases r with e | b
    · exact Task.eq_of_returns_done env _ o ho
    · cases b with
      | true => exact hproceed o ho
      | false => exact Task.eq_of_returns_done env _ o ho

theorem gated_map {β γ : Type} (f : β → γ) (answer : Option (Except Error Bool))
    (failed : Error → β) (closed proceed : β) :
    f (NodeAnswers.gated answer failed closed proceed) =
      NodeAnswers.gated answer (fun e => f (failed e)) (f closed) (f proceed) := by
  rcases answer with _ | (e | _ | _) <;> rfl

section Fixed
variable (env : Environment I σ) (primary : ManagedObject) (ctx : Context) (n : Node I)
  (a : NodeAnswers) (ha : n.Answers env primary ctx a)
include ha

/-- A precondition that comes out false is reported as a deletion without operations. -/
theorem reconcileVisit_returns (o : NodeOutcome)
    (h : (n.reconcileVisit primary ctx).Returns env o) : o = a.reconciled.getD (.deleted {}) := by
  unfold NodeAnswers.reconciled
  simp only [gated_map (fun r : Option NodeOutcome => r.getD (.deleted {})), Option.getD_some,
    Option.getD_none]
  refine gate_returns env _ _ (ha.check .activation) {} _ _ _ (fun o h => ?_) o h
  refine gate_returns env _ _ (ha.check .reconcilePrecondition) {} _ _ _ (fun o h => ?_) o h
  obtain ⟨r, hr, ho⟩ := Task.returns_bind env _ _ o h
  obtain rfl := ha.reconcile r hr
  cases hresult : a.reconcile with
  | error e =>
    rw [hresult] at ho
    exact Task.eq_of_returns_done env _ o ho
  | ok operations =>
    rw [hresult] at ho
    dsimp only
    rw [gated_map (fun r : Option NodeOutcome => r.getD (.deleted {}))]
    exact gate_returns env _ _ (ha.check .ready) operations _ _ _
      (fun o h => Task.eq_of_returns_done env _ o h) o ho

/-- A cleanup visit has the outcome of the fixed answers. -/
theorem cleanupVisit_returns (o : NodeOutcome)
    (h : (n.cleanupVisit primary ctx).Returns env o) : o = a.cleanup := by
  refine gate_returns env _ _ (ha.check .activation) {} _ _ _ (fun o h => ?_) o h
  refine gate_returns env _ _ (ha.check .cleanupReady) {} _ _ _ (fun o h => ?_) o h
  obtain ⟨r, hr, ho⟩ := Task.returns_bind env _ _ o h
  obtain rfl := ha.delete r hr
  cases hresult : a.delete with
  | error e =>
    rw [hresult] at ho
    exact Task.eq_of_returns_done env _ o ho
  | ok operations =>
    rw [hresult] at ho
    exact Task.eq_of_returns_done env _ o ho

end Fixed
end Node

namespace NodeAnswers

/-- The outcome that a visit reports. -/
def visited (a : NodeAnswers) : PassMode → NodeOutcome
  | .reconcile => a.reconciled.getD (.deleted {})
  | .cleanup => a.cleanup

theorem gated_cases {β : Type} (P : β → Prop) (answer : Option (Except Error Bool))
    (failed : Error → β) (closed proceed : β) (hfailed : ∀ e, P (failed e)) (hclosed : P closed)
    (hproceed : P proceed) : P (gated answer failed closed proceed) := by
  rcases answer with _ | (e | _ | _)
  · exact hproceed
  · exact hfailed e
  · exact hclosed
  · exact hproceed

/-- Only marks are reported as deletions. -/
def Unmarked (r : Option NodeOutcome) : Prop := ∀ o, r = some o → o.isDeleted = false

theorem unmarked_some (o : NodeOutcome) (h : o.isDeleted = false) : Unmarked (some o) := by
  intro o' ho
  rw [← Option.some.inj ho]
  exact h

theorem unmarked_none : Unmarked none := by
  intro o ho
  cases ho

theorem reconciled_unmarked (a : NodeAnswers) : Unmarked a.reconciled := by
  unfold reconciled
  refine gated_cases Unmarked _ _ _ _ (fun _ => unmarked_some _ rfl) (unmarked_some _ rfl) ?_
  refine gated_cases Unmarked _ _ _ _ (fun _ => unmarked_some _ rfl) unmarked_none ?_
  cases a.reconcile with
  | error e => exact unmarked_some _ rfl
  | ok operations =>
    exact gated_cases Unmarked _ _ _ _ (fun _ => unmarked_some _ rfl) (unmarked_some _ rfl)
      (unmarked_some _ rfl)

theorem cleanup_not_deleted (a : NodeAnswers) : a.cleanup.isDeleted = false := by
  unfold cleanup
  refine gated_cases (fun o : NodeOutcome => o.isDeleted = false) _ _ _ _ (fun _ => rfl) rfl ?_
  refine gated_cases (fun o : NodeOutcome => o.isDeleted = false) _ _ _ _ (fun _ => rfl) rfl ?_
  cases a.delete <;> rfl

end NodeAnswers

theorem Node.visit_returns {I : Interface} {σ : Type} (env : Environment I σ)
    (primary : ManagedObject) (ctx : Context) (n : Node I) (a : NodeAnswers)
    (ha : n.Answers env primary ctx a) (mode : PassMode) (o : NodeOutcome)
    (h : (n.visit mode primary ctx).Returns env o) : o = a.visited mode := by
  cases mode with
  | reconcile => exact n.reconcileVisit_returns env primary ctx a ha o h
  | cleanup => exact n.cleanupVisit_returns env primary ctx a ha o h

end Reconciliation
