import Reconciliation.Proofs.Dispatch.Finalizer
import Reconciliation.Proofs.Dispatch.Interleaving
import Reconciliation.Proofs.Dispatch.Unfolding
import Reconciliation.Proofs.Workflow.Invariant
import Reconciliation.WebApp.Demo

/-!
Dispatches on a clock as interleavings. Where all that moves the state writes on a cluster, the
exchanges of a dispatch are interleaved with writes of others, however it has unfolded. So what
holds of every interleaving holds of the dispatches that a host starts and resumes.
-/
namespace Reconciliation

namespace Cluster

/-- Writes lead from the cluster to the other one. -/
def LeadsTo (c c' : Cluster) : Prop := ∃ ws, c' = c.after ws

theorem leadsTo_self (c : Cluster) : c.LeadsTo c := ⟨[], rfl⟩

theorem leadsTo_perform (c : Cluster) (w : ClusterWrite) : c.LeadsTo (w.perform c).2 := ⟨[w], rfl⟩

theorem LeadsTo.trans {a b c : Cluster} (h : a.LeadsTo b) (h' : b.LeadsTo c) : a.LeadsTo c := by
  obtain ⟨ws, rfl⟩ := h
  obtain ⟨more, rfl⟩ := h'
  exact ⟨ws ++ more, (a.after_append ws more).symm⟩

end Cluster

/-- A pass keeps what its environment keeps, whatever else goes on. -/
theorem Pass.Unfolds.keeps {I : Interface} {σ : Type} {env : Environment I σ}
    {moves : σ → σ → Prop} {inv : σ → Prop} (henv : ∀ c, env.Keeps inv c fun _ => True)
    (hmoves : ∀ s s', inv s → moves s s' → inv s') {w : Workflow I} (hw : w.WellFormed)
    {mode : PassMode} {o : ManagedObject} {ctx : Context} {s s' : σ} (hs : inv s)
    {standing : Standing (Pass I) PassResult}
    (h : (w.pass mode o ctx).Unfolds env moves s standing s') :
    ComesTo w env inv o ctx mode standing ∧ inv s' := by
  have hnodes : ∀ n ∈ w.nodes, n.node.Keeps env inv mode o ctx := fun n _ =>
    ⟨fun _ _ _ => Action.ensures_of_keeps henv _, fun _ => Task.ensures_of_keeps henv _,
      Task.ensures_of_keeps henv _⟩
  induction h with
  | begin => exact ⟨onWay_pass hw, hs⟩
  | others q s' s'' _ hmove ih => exact ⟨ih.1, hmoves s' s'' ih.2 hmove⟩
  | settle q s' _ now ih => exact OnWay.settle hw hnodes ih.1 now s' ih.2

/-- The handlers do nothing to the cluster in their state but write on it, and they show the primary
and patch it as the cluster does. -/
structure Handlers.Writing {I : Interface} {σ : Type} (h : Handlers I σ) (view : σ → Cluster) :
    Prop where
  visitIssue : ∀ now c s, (view s).LeadsTo (view (h.nodes.issue now c s).2)
  visitAnswer : ∀ now c s, (view s).LeadsTo (view (h.nodes.answer now c s).2)
  issue : ∀ now c s, (view s).LeadsTo (view (h.issue now c s).2)
  truthful : ∀ now (c : PrimaryCall) s r, (h.answer now c s).1 = some r →
    DispatchCall.Truthful (I := I) (view s) (.primary c) r
  patch : ∀ now id v p s,
    view (h.answer now (.patch id v p) s).2 = ((view s).patch id v p).2
  answer : ∀ now (c : PrimaryCall) s, (DispatchCall.primary (I := I) c).write? = none →
    (view s).LeadsTo (view (h.answer now c s).2)

theorem Handlers.Writing.keeps {I : Interface} {σ : Type} {h : Handlers I σ} {view : σ → Cluster}
    (hh : h.Writing view) (c : Cluster) (call : I.Call) :
    h.nodes.Keeps (fun s => c.LeadsTo (view s)) call fun _ => True :=
  ⟨fun now s hs => hs.trans (hh.visitIssue now call s),
    fun now s hs => ⟨hs.trans (hh.visitAnswer now call s), trivial⟩⟩

namespace Dispatcher
variable {I : Interface} {σ : Type}

theorem clusterAt_append_others (before : List ClusterWrite) (items : List (Item I))
    (ws : List ClusterWrite) :
    clusterAt before (items ++ byOthers ws) = (clusterAt before items).after ws := by
  unfold clusterAt
  rw [writes_append, writes_byOthers, ← List.append_assoc]
  exact Cluster.after_append {} _ ws

/-- Writes of others may always follow. -/
theorem Interleaved.exists_others {before : List ClusterWrite} {items : List (Item I)}
    {t rest : Dispatching I DispatchSummary} (h : Interleaved before t items rest) {c : Cluster}
    (hc : (clusterAt before items).LeadsTo c) :
    ∃ items', Interleaved before t items' rest ∧ exchanges items' = exchanges items ∧
      c = clusterAt before items' := by
  obtain ⟨ws, rfl⟩ := hc
  refine ⟨items ++ byOthers ws, h.append_others ws, ?_, (clusterAt_append_others _ _ ws).symm⟩
  rw [exchanges_append, exchanges_byOthers, List.append_nil]

/-- An answer about the primary is the next exchange. The handlers write on the cluster while they
give it only if the call is a patch, and then they patch as the cluster does. -/
theorem Interleaved.exists_answered {h : Handlers I σ} {view : σ → Cluster} (hh : h.Writing view)
    {before : List ClusterWrite} {items : List (Item I)} {t : Dispatching I DispatchSummary}
    {c : PrimaryCall} {k : c.Reply → Dispatching I DispatchSummary}
    (hitems : Interleaved before t items (.call (.primary c) k)) {s : σ}
    (hview : view s = clusterAt before items) {now : Nat} {r : c.Reply}
    (hr : (h.answer now c s).1 = some r) :
    ∃ items', Interleaved before t items' (k r) ∧
      exchanges items' = exchanges items ++ [⟨.primary c, r⟩] ∧
      view (h.answer now c s).2 = clusterAt before items' := by
  have htrue := hh.truthful now c s r hr
  rw [hview] at htrue
  have hanswered := hitems.own items (.primary c) k r htrue
  have hlast : exchanges (items ++ [.own ⟨.primary c, r⟩]) =
      exchanges items ++ [⟨.primary c, r⟩] := exchanges_append items _
  cases hwrite : (DispatchCall.primary (I := I) c).write? with
  | none =>
    have hsame := clusterAt_concat_own before items ⟨.primary c, r⟩ hwrite
    have hleads := hh.answer now c s hwrite
    rw [hview, ← hsame] at hleads
    obtain ⟨items', hitems', hpast, hview'⟩ := hanswered.exists_others hleads
    exact ⟨items', hitems', hpast.trans hlast, hview'⟩
  | some w =>
    cases c with
    | patch id v p =>
      refine ⟨_, hanswered, hlast, ?_⟩
      rw [hh.patch, hview]
      exact (clusterAt_concat_written before items id v p r).symm
    | _ => cases hwrite

/-- However a dispatch has unfolded, its exchanges are interleaved with writes of others, and the
state shows the cluster after all of them. -/
theorem Unfolds.interleaved {d : Dispatcher I}
    (hbuilt : ∀ w, d.workflow = some w → ∃ p : WorkflowPlan I, p.build = .ok w)
    {h : Handlers I σ} {view : σ → Cluster} (hh : h.Writing view) {moves : σ → σ → Prop}
    (hmoves : ∀ s s', moves s s' → (view s).LeadsTo (view s')) {request : ReconciliationRequest}
    {retry : Option RetryInfo} {before : List ClusterWrite} {start : σ}
    (hstart : view start = .ofHistory before) {past : Past I}
    {rest : Dispatching I DispatchSummary} {s : σ}
    (hrest : Unfolds h moves (d.dispatch request retry) start past rest s) :
    ∃ items, Interleaved before (d.dispatch request retry) items rest ∧
      exchanges items = past ∧ view s = clusterAt before items := by
  induction hrest with
  | start =>
    refine ⟨[], .start, rfl, ?_⟩
    unfold clusterAt
    exact hstart.trans (congrArg Cluster.ofHistory (List.append_nil before).symm)
  | others past rest s s' _ hmove ih =>
    obtain ⟨items, hitems, hpast, hview⟩ := ih
    obtain ⟨items', hitems', hpast', hview'⟩ := hitems.exists_others (hview ▸ hmoves s s' hmove)
    exact ⟨items', hitems', hpast'.trans hpast, hview'⟩
  | issue past c k s _ now ih =>
    obtain ⟨items, hitems, hpast, hview⟩ := ih
    obtain ⟨items', hitems', hpast', hview'⟩ := hitems.exists_others (hview ▸ hh.issue now c s)
    exact ⟨items', hitems', hpast'.trans hpast, hview'⟩
  | answer past c k s _ now r hr ih =>
    obtain ⟨items, hitems, rfl, hview⟩ := ih
    exact hitems.exists_answered hh hview hr
  | pass past w mode o ctx k s hrest r s' hpass ih =>
    obtain ⟨items, hitems, hpast, hview⟩ := ih
    have hkeeps := d.leads_keepsTo hbuilt h.nodes request retry _ _ hrest.leads
    obtain ⟨p, hp⟩ := hbuilt w hkeeps.1.workflow_of_pass
    have hleads := (hpass.keeps (hh.keeps (view s))
      (fun s' s'' hs hmove => hs.trans (hmoves s' s'' hmove)) (p.build_wellFormed w hp).1
      (view s).leadsTo_self).2
    have hanswered := hitems.own items (.pass w mode o ctx) k r trivial
    rw [hview, ← clusterAt_concat_own before items (passed w mode o ctx r) rfl] at hleads
    obtain ⟨items', hitems', hpast', hview'⟩ := hanswered.exists_others hleads
    refine ⟨items', hitems', ?_, hview'⟩
    rw [hpast', exchanges_append, hpast]
    rfl

end Dispatcher

/-- The handlers of the sample application are of this kind. -/
theorem WebApp.handlers_writing : WebApp.handlers.Writing id := by
  refine ⟨fun _ _ c => c.leadsTo_self, fun now call c => ?_, fun _ _ c => c.leadsTo_self,
    fun now call c r hr => ?_, fun _ _ _ _ _ => rfl, fun now call c hwrite => ?_⟩
  · cases call with
    | get id => exact c.leadsTo_self
    | create o => exact c.leadsTo_perform (.create o)
    | patch id v p => exact c.leadsTo_perform (.patch id v p)
    | delete id => exact c.leadsTo_perform (.delete id (.ofMillis now))
    | ownedBy owner kind => exact c.leadsTo_self
  · cases call with
    | observe id => exact (Option.some.inj hr).symm
    | patch id v p => exact (Option.some.inj hr).symm
    | reconcile o ctx => trivial
    | cleanup o ctx => trivial
    | errorStatus o ctx e => trivial
  · cases call with
    | patch id v p => cases hwrite
    | _ => exact c.leadsTo_self

end Reconciliation
