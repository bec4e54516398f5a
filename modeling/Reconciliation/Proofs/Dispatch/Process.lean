import Reconciliation.Dispatch.Process
import Reconciliation.Proofs.Dispatch.Licence

/-!
Dispatches on a clock and their histories. Wherever a dispatch on a clock stands, exchanges with
possible answers lead there, so what holds of every history holds of every dispatch that a host
starts or resumes.
-/
namespace Reconciliation

theorem Pass.Course.exists_settle {I : Interface} {σ : Type} {env : Environment I σ}
    {p q : Pass I} {calls : List I.Call} (h : p.Course env (.going q) calls) (now : Nat) (s : σ) :
    ∃ more, p.Course env (q.settle env now s).1 more := by
  have hstanding := q.settle_noting env now (s, calls)
  refine ⟨(q.settle env.noting now (s, calls)).2.2, ?_⟩
  rw [← congrArg Prod.fst hstanding]
  exact Course.settle q calls h now s

namespace DispatchProcess
variable {I : Interface} {σ : Type}

/-- The outcome of a dispatch on a clock stands at the end of a history of the dispatch. A
dispatch that crashed has no summary. -/
inductive StandsAt (env : Environment I σ) (t : Dispatching I DispatchSummary) :
    Outcome I → Prop
  | awaiting (past : Dispatcher.Past I) (due : Nat) (c : PrimaryCall)
      (k : c.Reply → Dispatching I DispatchSummary)
      (h : t.Leads (DispatchCall.Possible env) past (.call (.primary c) k)) :
      StandsAt env t (.going (.awaiting due c k))
  | passing (past : Dispatcher.Past I) (w : Workflow I) (mode : PassMode) (o : ManagedObject)
      (ctx : Context) (k : PassResult → Dispatching I DispatchSummary) (p : Pass I)
      (calls : List I.Call)
      (h : t.Leads (DispatchCall.Possible env) past (.call (.pass w mode o ctx) k))
      (hp : (w.pass mode o ctx).Course env (.going p) calls) :
      StandsAt env t (.going (.passing p k))
  | over (past : Dispatcher.Past I) (summary : DispatchSummary)
      (h : t.Leads (DispatchCall.Possible env) past (.done summary)) :
      StandsAt env t (.over (some summary))
  | crashed : StandsAt env t (.over none)

/-- Going on with a dispatch leads to the next call on a clock, along possible answers. -/
theorem advance_standsAt (h : Handlers I σ) (now : Nat) (t rest : Dispatching I DispatchSummary)
    (past : Dispatcher.Past I) (hrest : t.Leads (DispatchCall.Possible h.nodes) past rest)
    (s : σ) : StandsAt h.nodes t (advance h now rest s).1 := by
  induction rest generalizing past s with
  | done summary => exact .over past summary hrest
  | call c k ih =>
    cases c with
    | primary c =>
      unfold advance
      split
      · rename_i s' _
        split
        · rename_i r s'' _
          exact ih r _ (hrest.answer past _ k r trivial) s''
        · exact .crashed
      · rename_i delay s' _ _
        exact .awaiting past (now + delay) c k hrest
    | pass w mode o ctx =>
      have hbegin : (w.pass mode o ctx).Course h.nodes (.going (w.pass mode o ctx)) [] := .begin
      obtain ⟨calls, hcourse⟩ := hbegin.exists_settle now s
      unfold advance
      split
      · rename_i r s' heq
        rw [heq] at hcourse
        exact ih r _ (hrest.answer past _ k r ⟨calls, hcourse⟩) s'
      · rename_i p s' heq
        rw [heq] at hcourse
        exact .passing past w mode o ctx k p calls hrest hcourse

/-- Resuming it does, too. -/
theorem resume_standsAt (h : Handlers I σ) (now : Nat) (t : Dispatching I DispatchSummary)
    (p : DispatchProcess I) (hp : StandsAt h.nodes t (.going p)) (s : σ) :
    StandsAt h.nodes t (p.resume h now s).1 := by
  cases hp with
  | awaiting past due c k hrest =>
    simp only [resume]
    split
    · split
      · rename_i r s' _
        exact advance_standsAt h now t _ _ (hrest.answer past (.primary c) k r trivial) s'
      · exact .crashed
    · exact .awaiting past due c k hrest
  | passing past w mode o ctx k p calls hrest hcourse =>
    obtain ⟨more, hsettled⟩ := hcourse.exists_settle now s
    simp only [resume]
    split
    · rename_i r s' heq
      rw [heq] at hsettled
      exact advance_standsAt h now t _ _
        (hrest.answer past (.pass w mode o ctx) k r ⟨more, hsettled⟩) s'
    · rename_i q s' heq
      rw [heq] at hsettled
      exact .passing past w mode o ctx k q more hrest hsettled

end DispatchProcess

namespace Dispatcher
variable {I : Interface} {σ : Type}

/-- A dispatch that a host starts stands at a point that its history leads to. -/
theorem host_start_standsAt (d : Dispatcher I) (h : Handlers I σ) (now : Nat)
    (request : ReconciliationRequest) (retry : Option RetryInfo) (s : σ) :
    DispatchProcess.StandsAt h.nodes (d.dispatch request retry)
      ((d.host h).start now request retry s).1 :=
  DispatchProcess.advance_standsAt h now _ _ [] .start s

/-- A dispatch that a host resumes goes on in its history. -/
theorem host_resume_standsAt (d : Dispatcher I) (h : Handlers I σ) (now : Nat)
    (request : ReconciliationRequest) (retry : Option RetryInfo) (p : DispatchProcess I)
    (hp : DispatchProcess.StandsAt h.nodes (d.dispatch request retry) (.going p)) (s : σ) :
    DispatchProcess.StandsAt h.nodes (d.dispatch request retry) ((d.host h).resume now p s).1 :=
  DispatchProcess.resume_standsAt h now _ p hp s

end Dispatcher
end Reconciliation
