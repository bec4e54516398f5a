import Reconciliation.Proofs.Dependent.Clearance
import Reconciliation.Proofs.Dispatch.Finalizer
import Reconciliation.Proofs.Dispatch.Unfolding
import Reconciliation.WebApp.Demo

/-!
What is left of the dependents when the finalizer goes. Every owned object is on its way out by
then, whatever times the answers took and whatever others have taken away meanwhile. What stays is
an object whose name is that of another one of the primary's in another namespace.
-/
namespace Reconciliation

open Client Owned

/-- The handlers of a cluster. Reading the primary changes nothing, and neither does the
reconciler when it cleans up. -/
structure Handlers.Calm (h : Handlers plainInterface Cluster) : Prop where
  nodes : ∃ delay, h.nodes = plainEnvironment delay
  issue : ∀ now c s, (h.issue now c s).2 = s
  observe : ∀ now id s, (h.answer now (.observe id) s).2 = s
  cleanup : ∀ now o ctx s, (h.answer now (.cleanup o ctx) s).2 = s

theorem NodeOutcome.isSucceeded_of_isSettled (o : NodeOutcome) (h : o.isSettled = true)
    (hunmarked : o.isDeleted = false) (hactive : o ≠ .skippedInactive) : o.isSucceeded = true := by
  cases o with
  | succeeded operations => rfl
  | skippedInactive => exact absurd rfl hactive
  | deleted operations => cases hunmarked
  | notReady operations reason => cases h
  | errored e => cases h

theorem PassResult.mem_recorded (r : PassResult) (name : String) (o : NodeOutcome)
    (h : r.outcome? name = some o) : (name, o) ∈ r.recorded :=
  Association.mem_of_lookup r.recorded name o h

/-- The calls of a cleanup before the finalizer goes. -/
def DispatchCall.Cleans {I : Interface} : DispatchCall I → Prop
  | primary (.observe _) | primary (.cleanup ..) => True
  | primary _ => False
  | pass _ mode _ _ => mode = .cleanup

namespace Owned

/-- What the cleanup of the node of that name is to leave. -/
def goalOf (keepers : List Keeper) (primary : ManagedObject) (start : Cluster) (name : String) :
    Goal Cluster.Dwindles :=
  match keepers.find? fun k => k.name = name with
  | some k => k.holding.goal primary start
  | none => Goal.anything

theorem goalOf_name (keepers : List Keeper) (hnames : (keepers.map (·.name)).Nodup)
    (primary : ManagedObject) (start : Cluster) (k : Keeper) (hk : k ∈ keepers) :
    goalOf keepers primary start k.name = k.holding.goal primary start := by
  unfold goalOf
  cases hfind : keepers.find? fun k' => k'.name = k.name with
  | none =>
    have hne := List.find?_eq_none.mp hfind k hk
    simp at hne
  | some k' =>
    have hname : k'.name = k.name := by simpa using List.find?_some hfind
    rw [List.inj_on_of_nodup_map hnames (List.mem_of_find?_eq_some hfind) hk hname]

end Owned

namespace Dispatcher

section Cleared
variable {d : Dispatcher plainInterface} {p : WorkflowPlan plainInterface}
  {w : Workflow plainInterface} (hbuilt : p.build = .ok w) (hw : d.workflow = some w)
  {keepers : List Keeper} (hkeepers : p.nodes = keepers.map Keeper.node)
  {h : Handlers plainInterface Cluster} (hcalm : h.Calm)
  {request : ReconciliationRequest} {retry : Option RetryInfo} {start : Cluster}
  (hstart : start.Keyed)

include hbuilt hw in
theorem built_of_workflow (w' : Workflow plainInterface) (hw' : d.workflow = some w') :
    ∃ p : WorkflowPlan plainInterface, p.build = .ok w' := by
  obtain rfl : w = w' := Option.some.inj (hw.symm.trans hw')
  exact ⟨p, hbuilt⟩

include hbuilt hkeepers in
theorem keepers_names_nodup : (keepers.map (·.name)).Nodup := by
  obtain ⟨hformed, hnodes⟩ := p.build_wellFormed w hbuilt
  have hnames : w.nodes.map (·.node.name) = keepers.map (·.name) := by
    calc w.nodes.map (·.node.name) = (w.nodes.map (·.node)).map (·.name) := by
          rw [List.map_map]
          rfl
      _ = (keepers.map Keeper.node).map (·.name) := by rw [hnodes, hkeepers]
      _ = keepers.map (·.name) := by
          rw [List.map_map]
          rfl
  rw [← hnames]
  exact hformed.names_nodup

include hbuilt hkeepers hstart in
/-- Every node of a workflow of keepers clears its objects away. -/
theorem nodes_clear (delay : Nat → ClusterCall → Cluster → Nat) (o : ManagedObject)
    (ctx : Context) {s : Cluster} (hs : start.Dwindles s) :
    ∀ n ∈ w.nodes, n.node.Clears (plainEnvironment delay)
      (goalOf keepers o start n.node.name) o ctx s := by
  intro n hn
  have hnodes := (p.build_wellFormed w hbuilt).2
  have hmem : n.node ∈ keepers.map Keeper.node := by
    rw [← hkeepers, ← hnodes]
    exact List.mem_map_of_mem hn
  obtain ⟨k, hk, heq⟩ := List.mem_map.mp hmem
  rw [← heq, show k.node.name = k.name from rfl,
    goalOf_name keepers (keepers_names_nodup hbuilt hkeepers) o start k hk]
  exact k.clears delay o ctx hstart hs

include hbuilt hw hkeepers hcalm hstart in
/-- What the cleanup pass has attained stands while the dispatch goes on to the removal. -/
theorem Unfolds.attained {past : Past plainInterface}
    {rest : Dispatching plainInterface DispatchSummary} {s : Cluster}
    (hrest : Unfolds h Cluster.Dwindles (d.dispatch request retry) start past rest s)
    (hpast : ∀ e ∈ past, DispatchCall.Cleans e.call) :
    start.Dwindles s ∧ ∀ w' o ctx r, passed w' .cleanup o ctx r ∈ past →
      ∀ e ∈ r.recorded, (e.2.attains (goalOf keepers o start e.1)).Holds s := by
  induction hrest with
  | start => exact ⟨start.dwindles_refl, fun _ _ _ _ h => absurd h List.not_mem_nil⟩
  | others past rest s s' _ hmove ih =>
    obtain ⟨hs, hattained⟩ := ih hpast
    refine ⟨hs.trans hmove, fun w' o ctx r hr e he => ?_⟩
    exact (e.2.attains _).lasts s s' hmove (hattained w' o ctx r hr e he)
  | issue past c k s _ now ih =>
    rw [hcalm.issue]
    exact ih hpast
  | answer past c k s _ now r hr ih =>
    rw [List.forall_mem_append, List.forall_mem_singleton] at hpast
    have hsame : (h.answer now c s).2 = s := by
      cases c with
      | observe id => exact hcalm.observe now id s
      | cleanup o ctx => exact hcalm.cleanup now o ctx s
      | _ => cases hpast.2
    rw [hsame]
    obtain ⟨hs, hattained⟩ := ih hpast.1
    refine ⟨hs, fun w' o ctx r' hr' => hattained w' o ctx r' ?_⟩
    rcases List.mem_append.mp hr' with hold | hnew
    · exact hold
    · cases congrArg Exchange.call (List.mem_singleton.mp hnew)
  | pass past w' mode o ctx k s hrest r s' hpass ih =>
    rw [List.forall_mem_append, List.forall_mem_singleton] at hpast
    obtain rfl : mode = .cleanup := hpast.2
    obtain ⟨hs, hattained⟩ := ih hpast.1
    have hkeeps := d.leads_keepsTo (built_of_workflow hbuilt hw) h.nodes request retry _ _
      hrest.leads
    obtain rfl : w = w' := Option.some.inj (hw.symm.trans hkeeps.1.workflow_of_pass)
    obtain ⟨delay, hnodes⟩ := hcalm.nodes
    rw [hnodes] at hpass
    obtain ⟨hover, hmove⟩ := hpass.attaining (p.build_wellFormed w hbuilt).1
      (nodes_clear hbuilt hkeepers hstart delay o ctx hs)
    refine ⟨hs.trans hmove, fun w' o' ctx' r' hr' e he => ?_⟩
    rcases List.mem_append.mp hr' with hold | hnew
    · exact (e.2.attains _).lasts s s' hmove (hattained w' o' ctx' r' hold e he)
    · cases List.mem_singleton.mp hnew
      match hover with
      | .over _ _ _ hattained => exact hattained e he

end Cleared

/-- When a dispatch is about to take the finalizer away, its cleanup pass has reported on every
node, and of every node that it has not skipped only objects with a namesake are left. -/
theorem finalizer_outlasts_dependents (d : Dispatcher plainInterface) (f : String)
    (hf : d.finalizer = some f) (p : WorkflowPlan plainInterface) (w : Workflow plainInterface)
    (hbuilt : p.build = .ok w) (hw : d.workflow = some w) (keepers : List Keeper)
    (hkeepers : p.nodes = keepers.map Keeper.node) (h : Handlers plainInterface Cluster)
    (hcalm : h.Calm) (request : ReconciliationRequest) (retry : Option RetryInfo)
    (start : Cluster) (hstart : start.Keyed) (past : Past plainInterface)
    (c : DispatchCall plainInterface) (k : c.Reply → Dispatching plainInterface DispatchSummary)
    (s : Cluster)
    (hrest : Unfolds h Cluster.Dwindles (d.dispatch request retry) start past (.call c k) s)
    (hc : c.Removes f) :
    ∃ o ctx ctx' r,
      past = [observation request.id (some o), passed w .cleanup o ctx r, agreement o ctx'] ∧
        ∀ keeper ∈ keepers, r.outcome? keeper.name ≠ some .skippedInactive →
          keeper.holding.Cleared o start s := by
  obtain ⟨hformed, hnodes⟩ := p.build_wellFormed w hbuilt
  have hbracketed := d.dispatch_bracketed f hf (built_of_workflow hbuilt hw) h.nodes request retry
    past _ hrest.leads
  obtain ⟨_, o, before, ctx', rfl, _, _, hgone⟩ := hbracketed.removes c k rfl hc
  cases hgone with
  | without hnone => cases hnone.symm.trans hw
  | settled w' hw' ctx r hsettles =>
    obtain rfl : w = w' := Option.some.inj (hw.symm.trans hw')
    have hcleans : ∀ e ∈ ([observation request.id (some o), passed w .cleanup o ctx r,
        agreement o ctx'] : Past plainInterface), DispatchCall.Cleans e.call := by
      rw [List.forall_mem_cons, List.forall_mem_cons, List.forall_mem_singleton]
      exact ⟨trivial, rfl, trivial⟩
    obtain ⟨_, hattained⟩ := hrest.attained hbuilt hw hkeepers hcalm hstart hcleans
    refine ⟨o, ctx, ctx', r, rfl, fun keeper hkeeper hactive => ?_⟩
    have hmem : keeper.node ∈ w.nodes.map (·.node) := by
      rw [hnodes, hkeepers]
      exact List.mem_map_of_mem hkeeper
    obtain ⟨n, hn, heq⟩ := List.mem_map.mp hmem
    obtain ⟨out, hout, hsettled⟩ := hsettles.settled n hn
    rw [show n.node.name = keeper.name from congrArg Node.name heq] at hout
    obtain ⟨hunmarked, hgoal⟩ := hattained w o ctx r (by simp) _
      (r.mem_recorded keeper.name out hout)
    rw [goalOf_name keepers (keepers_names_nodup hbuilt hkeepers) o start keeper hkeeper] at hgoal
    have hsucceeded := out.isSucceeded_of_isSettled hsettled hunmarked fun hskipped =>
      hactive (hskipped ▸ hout)
    exact (hgoal hsucceeded).2

/-- The dependents of the sample application. -/
def appKeepers : List Keeper := [
  { name := "config"
    holding := .object "ConfigMap" WebApp.configTemplate
    condition? := fun
      | .ready => some .present
      | _ => none
    quiet := by
      intro kind condition h primary observed ctx
      cases kind <;> cases h
      trivial },
  { name := "pods"
    dependsOn := ["config"]
    holding := .objects "Pod" WebApp.podTemplate
    quiet := by
      intro kind condition h
      cases h },
  { name := "ingress"
    dependsOn := ["pods"]
    holding := .object "Ingress" WebApp.ingressTemplate
    condition? := fun
      | .reconcilePrecondition => some (.pure fun primary _ _ => WebApp.isExposed primary)
      | _ => none
    quiet := by
      intro kind condition h primary observed ctx
      cases kind <;> cases h
      trivial }]

theorem workflowPlan_keepers :
    (WebApp.workflowPlan plain).nodes = appKeepers.map Keeper.node := by
  rfl

theorem handlers_calm : WebApp.handlers.Calm :=
  ⟨⟨fun _ _ _ => 0, rfl⟩, fun _ _ _ => rfl, fun _ _ _ => rfl, fun _ _ _ _ => rfl⟩

/-- The dispatcher of the sample application. -/
def appDispatcher : Dispatcher plainInterface where
  finalizer := some "example.com/cleanup"
  readinessRecheck := .zero
  workflow := some ((WebApp.workflowPlan plain).ordered [0, 1, 2])

/-- An application that is to be deleted. -/
def closing : ManagedObject where
  id := ⟨"WebApp", some "shop", "web"⟩
  spec := .object []
  finalizers := .ofList ["example.com/cleanup"]

/-- A pod of the application in a namespace. -/
def worker (ns : String) (finalizers : List String) : ManagedObject where
  id := ⟨"Pod", some ns, "worker"⟩
  spec := .null
  owner := some closing.id
  finalizers := .ofList finalizers

/-- The application with its pods, all in the cluster when its deletion has been requested. -/
def shopWith (pods : List ManagedObject) : Cluster :=
  .ofHistory (.create closing :: .delete closing.id (.ofMillis 0) :: pods.map .create)

/-- The application as a dispatch reads it. -/
def closingRead : ManagedObject := ((shopWith []).get? closing.id).getD closing

/-- The cleanup pass over the dependents of the application. -/
def sweep : Pass plainInterface :=
  ((WebApp.workflowPlan plain).ordered [0, 1, 2]).pass .cleanup closingRead
    { primary := closing.id }

/-- The result of a pass that finds one pod by name, and no other objects. -/
def swept : PassResult where
  mode := .cleanup
  declared := ["config", "pods", "ingress"]
  recorded := [("ingress", .succeeded {}), ("pods", .succeeded { deleted := 1 }),
    ("config", .succeeded {})]

/-- The exchanges of a dispatch before it takes the finalizer away. -/
def sweptPast : Past plainInterface := [
  observation closing.id (some closingRead),
  passed ((WebApp.workflowPlan plain).ordered [0, 1, 2]) .cleanup closingRead
    { primary := closing.id } swept,
  agreement closingRead { primary := closing.id, passResult := some swept }]

/-- The write that takes the finalizer away. -/
def lastWrite : DispatchCall plainInterface :=
  .primary (.patch closingRead.id closingRead.version (.withoutFinalizer "example.com/cleanup"))

/-- The cluster after the cleanup pass. -/
def sweptShop (pods : List ManagedObject) : Cluster :=
  (sweep.settle WebApp.handlers.nodes 0 (shopWith pods)).2

/-- The closing shop comes to its last write after the sweep, whatever pods it started with. -/
theorem unfolds_lastWrite (pods : List ManagedObject)
    (hread : (shopWith pods).get? closing.id = some closingRead)
    (hsweep : (sweep.settle WebApp.handlers.nodes 0 (shopWith pods)).1 = .over swept) :
    ∃ k, Unfolds WebApp.handlers Cluster.Dwindles (appDispatcher.dispatch ⟨closing.id, []⟩ none)
      (shopWith pods) sweptPast (.call lastWrite k) (sweptShop pods) := by
  have hstart : Unfolds WebApp.handlers Cluster.Dwindles
    (appDispatcher.dispatch ⟨closing.id, []⟩ none) (shopWith pods) []
    (appDispatcher.dispatch ⟨closing.id, []⟩ none) (shopWith pods) := .start
  have hfound := hstart.answer _ _ _ _ 0 (some closingRead) (congrArg some hread)
  have hbegin : sweep.Unfolds WebApp.handlers.nodes Cluster.Dwindles (shopWith pods) (.going sweep)
    (shopWith pods) := .begin
  have hpass := hbegin.settle sweep (shopWith pods) 0
  rw [hsweep] at hpass
  have hswept := hfound.pass _ _ _ _ _ _ _ swept _ hpass
  have hagreed := hswept.answer _ _ _ _ 0 (.ok .proceed : Except Error CleanupVerdict) rfl
  exact ⟨_, hagreed⟩

/-- A pod that a finalizer of its own holds is terminating when the application goes. -/
theorem finalizer_outlasts_dependents_held :
    let pods := [worker "shop" ["example.com/drain"]]
    (∃ k, Unfolds WebApp.handlers Cluster.Dwindles
      (appDispatcher.dispatch ⟨closing.id, []⟩ none) (shopWith pods) sweptPast (.call lastWrite k)
      (sweptShop pods)) ∧
    lastWrite.Removes "example.com/cleanup" ∧
    ∀ keeper ∈ appKeepers, keeper.holding.Cleared closingRead (shopWith pods) (sweptShop pods) := by
  intro pods
  obtain ⟨k, hrest⟩ := unfolds_lastWrite [worker "shop" ["example.com/drain"]] rfl rfl
  obtain ⟨o, ctx, ctx', r, hpast, hcleared⟩ := appDispatcher.finalizer_outlasts_dependents
    "example.com/cleanup" rfl (WebApp.workflowPlan plain) _ rfl rfl appKeepers
    workflowPlan_keepers WebApp.handlers handlers_calm ⟨closing.id, []⟩ none _
    (Cluster.keyed_ofHistory _) _ lastWrite k _ hrest rfl
  cases hpast
  have hnone : ∀ e ∈ swept.recorded, e.2.isSkipped = false := by decide
  refine ⟨⟨k, hrest⟩, rfl, fun keeper hkeeper => hcleared keeper hkeeper fun hskipped => ?_⟩
  cases hnone _ (swept.mem_recorded _ _ hskipped)

/-- Of two pods of one name in different namespaces one is still there and not even terminating
when the application goes. -/
theorem namesake_outlasts_finalizer :
    let pods := [worker "shop" [], worker "annex" []]
    (∃ k, Unfolds WebApp.handlers Cluster.Dwindles
      (appDispatcher.dispatch ⟨closing.id, []⟩ none) (shopWith pods) sweptPast (.call lastWrite k)
      (sweptShop pods)) ∧
    swept.outcome? "pods" = some (.succeeded { deleted := 1 }) ∧
    (∃ pod ∈ (sweptShop pods).ownedBy closingRead.id "Pod", pod.isTerminating = false) ∧
    ((sweptShop pods).patch closingRead.id closingRead.version
      (.withoutFinalizer "example.com/cleanup")).2.get? closingRead.id = none :=
  ⟨unfolds_lastWrite _ rfl rfl, rfl, by decide, rfl⟩

end Dispatcher
end Reconciliation
