import Reconciliation.Proofs.Dispatch.Process
import Reconciliation.Proofs.Workflow.Attainment

/-!
Dispatches with the state that they work on. A dispatch unfolds by exchanges, and each of them
leaves a state for the next one; between them others may move the state. Every history of a
dispatch arises so, and wherever a dispatch on a clock stands, it has unfolded to there.
-/
namespace Reconciliation

theorem Pass.Unfolds.course {I : Interface} {σ : Type} {env : Environment I σ}
    {moves : σ → σ → Prop} {p : Pass I} {s s' : σ} {standing : Standing (Pass I) PassResult}
    (h : p.Unfolds env moves s standing s') : ∃ calls, p.Course env standing calls := by
  induction h with
  | begin => exact ⟨[], .begin⟩
  | others q _ _ _ _ ih => exact ih
  | settle q s' _ now ih =>
    obtain ⟨calls, hcourse⟩ := ih
    exact hcourse.exists_settle now s'

namespace Dispatcher
variable {I : Interface} {σ : Type}

/-- The exchanges that a dispatch has had, what is left of it, and the state then. It starts in
some state and goes on at any times, and in between others may move the state. -/
inductive Unfolds (h : Handlers I σ) (moves : σ → σ → Prop) (t : Dispatching I DispatchSummary)
    (start : σ) : Past I → Dispatching I DispatchSummary → σ → Prop
  | start : Unfolds h moves t start [] t start
  | others (past : Past I) (rest : Dispatching I DispatchSummary) (s s' : σ)
      (hrest : Unfolds h moves t start past rest s) (hmove : moves s s') :
      Unfolds h moves t start past rest s'
  | issue (past : Past I) (c : PrimaryCall) (k : c.Reply → Dispatching I DispatchSummary) (s : σ)
      (hrest : Unfolds h moves t start past (.call (.primary c) k) s) (now : Nat) :
      Unfolds h moves t start past (.call (.primary c) k) (h.issue now c s).2
  | answer (past : Past I) (c : PrimaryCall) (k : c.Reply → Dispatching I DispatchSummary) (s : σ)
      (hrest : Unfolds h moves t start past (.call (.primary c) k) s) (now : Nat) (r : c.Reply)
      (hr : (h.answer now c s).1 = some r) :
      Unfolds h moves t start (past ++ [⟨.primary c, r⟩]) (k r) (h.answer now c s).2
  | pass (past : Past I) (w : Workflow I) (mode : PassMode) (o : ManagedObject) (ctx : Context)
      (k : PassResult → Dispatching I DispatchSummary) (s : σ)
      (hrest : Unfolds h moves t start past (.call (.pass w mode o ctx) k) s) (r : PassResult)
      (s' : σ) (hpass : (w.pass mode o ctx).Unfolds h.nodes moves s (.over r) s') :
      Unfolds h moves t start (past ++ [passed w mode o ctx r]) (k r) s'

/-- A dispatch unfolds along a history of possible answers. -/
theorem Unfolds.leads {h : Handlers I σ} {moves : σ → σ → Prop}
    {t rest : Dispatching I DispatchSummary} {start s : σ} {past : Past I}
    (hrest : Unfolds h moves t start past rest s) :
    t.Leads (DispatchCall.Possible h.nodes) past rest := by
  induction hrest with
  | start => exact .start
  | others past rest s s' _ _ ih => exact ih
  | issue past c k s _ now ih => exact ih
  | answer past c k s _ now r _ ih => exact ih.answer past (.primary c) k r trivial
  | pass past w mode o ctx k s _ r s' hpass ih =>
    exact ih.answer past (.pass w mode o ctx) k r hpass.course

end Dispatcher

namespace DispatchProcess
variable {I : Interface} {σ : Type}

/-- The outcome of a dispatch on a clock is one that the dispatch has unfolded to. -/
inductive UnfoldedTo (h : Handlers I σ) (moves : σ → σ → Prop)
    (t : Dispatching I DispatchSummary) (start : σ) : Outcome I → σ → Prop
  | awaiting (past : Dispatcher.Past I) (due : Nat) (c : PrimaryCall)
      (k : c.Reply → Dispatching I DispatchSummary) (s : σ)
      (hrest : Dispatcher.Unfolds h moves t start past (.call (.primary c) k) s) :
      UnfoldedTo h moves t start (.going (.awaiting due c k)) s
  | passing (past : Dispatcher.Past I) (w : Workflow I) (mode : PassMode) (o : ManagedObject)
      (ctx : Context) (k : PassResult → Dispatching I DispatchSummary) (s : σ)
      (hrest : Dispatcher.Unfolds h moves t start past (.call (.pass w mode o ctx) k) s)
      (p : Pass I) (s' : σ) (hp : (w.pass mode o ctx).Unfolds h.nodes moves s (.going p) s') :
      UnfoldedTo h moves t start (.going (.passing p k)) s'
  | over (past : Dispatcher.Past I) (summary : DispatchSummary) (s : σ)
      (hrest : Dispatcher.Unfolds h moves t start past (.done summary) s) :
      UnfoldedTo h moves t start (.over (some summary)) s
  | crashed (s : σ) : UnfoldedTo h moves t start (.over none) s

section Clock
variable {h : Handlers I σ} {moves : σ → σ → Prop} {t : Dispatching I DispatchSummary}
  {start : σ}

/-- Going on with a dispatch unfolds it further. -/
theorem advance_unfoldedTo (now : Nat) (rest : Dispatching I DispatchSummary)
    (past : Dispatcher.Past I) (s : σ) (hrest : Dispatcher.Unfolds h moves t start past rest s) :
    UnfoldedTo h moves t start (advance h now rest s).1 (advance h now rest s).2 := by
  induction rest generalizing past s with
  | done summary => exact .over past summary s hrest
  | call c k ih =>
    cases c with
    | primary c =>
      have hissued := hrest.issue past c k s now
      unfold advance
      split
      · rename_i s' heq
        rw [heq] at hissued
        split
        · rename_i r s'' hanswer
          have hanswered := hissued.answer past c k s' now r (congrArg Prod.fst hanswer)
          rw [hanswer] at hanswered
          exact ih r _ s'' hanswered
        · exact .crashed _
      · rename_i delay s' _ heq
        rw [heq] at hissued
        exact .awaiting past (now + delay) c k s' hissued
    | pass w mode o ctx =>
      have hbegin : (w.pass mode o ctx).Unfolds h.nodes moves s (.going (w.pass mode o ctx)) s :=
        .begin
      have hsettled := hbegin.settle (w.pass mode o ctx) s now
      unfold advance
      split
      · rename_i r s' heq
        rw [heq] at hsettled
        exact ih r _ s' (hrest.pass past w mode o ctx k s r s' hsettled)
      · rename_i p s' heq
        rw [heq] at hsettled
        exact .passing past w mode o ctx k s hrest p s' hsettled

/-- While a dispatch waits, others may move the state. -/
theorem UnfoldedTo.others {p : DispatchProcess I} {s s' : σ}
    (hp : UnfoldedTo h moves t start (.going p) s) (hmove : moves s s') :
    UnfoldedTo h moves t start (.going p) s' := by
  cases hp with
  | awaiting past due c k _ hrest => exact .awaiting past due c k s' (hrest.others _ _ _ _ hmove)
  | passing past w mode o ctx k s₀ hrest q _ hq =>
    exact .passing past w mode o ctx k s₀ hrest q s' (hq.others _ _ _ hmove)

/-- So does resuming it. -/
theorem resume_unfoldedTo (now : Nat) (p : DispatchProcess I) (s : σ)
    (hp : UnfoldedTo h moves t start (.going p) s) :
    UnfoldedTo h moves t start (p.resume h now s).1 (p.resume h now s).2 := by
  cases hp with
  | awaiting past due c k _ hrest =>
    simp only [resume]
    split
    · split
      · rename_i r s' hanswer
        have hanswered := hrest.answer past c k s now r (congrArg Prod.fst hanswer)
        rw [hanswer] at hanswered
        exact advance_unfoldedTo now _ _ s' hanswered
      · exact .crashed _
    · exact .awaiting past due c k s hrest
  | passing past w mode o ctx k s₀ hrest q _ hq =>
    have hsettled := hq.settle q s now
    simp only [resume]
    split
    · rename_i r s' heq
      rw [heq] at hsettled
      exact advance_unfoldedTo now _ _ s' (hrest.pass past w mode o ctx k s₀ r s' hsettled)
    · rename_i q' s' heq
      rw [heq] at hsettled
      exact .passing past w mode o ctx k s₀ hrest q' s' hsettled

end Clock
end DispatchProcess
end Reconciliation
