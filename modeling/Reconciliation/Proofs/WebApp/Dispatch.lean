import Reconciliation.Proofs.Dispatch.Finalizer
import Reconciliation.Proofs.WebApp.Pass
import Reconciliation.WebApp.Demo

/-!
One dispatch of a web application in a cluster that answers at once. It adds the finalizer and
does nothing else, or it is a pass over the dependents and a write of the status. The write is
left out where the status says already what it is to say.
-/
namespace Reconciliation.WebApp

open Client Owned

/-- An application in a cluster in which nothing stands in the way of its dependents. -/
structure Underway (o : ManagedObject) (n : Nat) (c : Cluster) : Prop where
  stored : c.get? o.id = some o
  kind : o.id.kind = kind
  active : o.isTerminating = false
  workable : Workable o n c

section Patched
variable {o : ManagedObject} {n : Nat} {c : Cluster} (p : ObjectPatch)

/-- The application after a patch. -/
abbrev patched (c : Cluster) (o : ManagedObject) (p : ObjectPatch) : ManagedObject :=
  c.renew (p.applyTo o)

theorem Underway.isReleased_patched (h : Underway o n c) :
    (patched c o p).isReleased = false := by
  unfold ManagedObject.isReleased
  rw [show (patched c o p).isTerminating = false from h.active]
  rfl

theorem Underway.turns_patched (h : Underway o n c) :
    c.Turns o.id (· = some (patched c o p)) (c.put .updated (patched c o p)) :=
  h.workable.tame.turns_put .updated (patched c o p) (h.isReleased_patched p)

/-- A patch of the application leaves the objects of other kinds alone. -/
theorem Underway.get?_patched (h : Underway o n c) (id : ResourceId) (hid : id.kind ≠ WebApp.kind) :
    (c.put .updated (patched c o p)).get? id = c.get? id :=
  (h.turns_patched p).elsewhere id fun heq => hid (heq ▸ h.kind)

variable (hp : p.spec = none)
include hp

/-- A patch of the application changes none of its dependents. -/
theorem Underway.fulfilled_patched (h : Underway o n c) (hfulfilled : Fulfilled o n c) :
    Fulfilled (patched c o p) n (c.put .updated (patched c o p)) := by
  have hturns := h.turns_patched p
  have hsame := h.get?_patched p
  have hpods := hfulfilled.pods.elsewhere h.workable.tame.keyed hturns.tame.keyed fun id hid =>
    hsame id (hid ▸ by decide)
  have hconfig := hfulfilled.config
  have hingress := hfulfilled.ingress
  rw [← hsame (configFor o).id (by decide : "ConfigMap" ≠ WebApp.kind)] at hconfig
  rw [← hsame (ingressFor o).id (by decide : "Ingress" ≠ WebApp.kind)] at hingress
  obtain ⟨spec, status, add, remove⟩ := p
  obtain rfl : spec = none := hp
  exact ⟨hconfig, ⟨hpods.near, hpods.fits⟩, ⟨hingress.exposed, hingress.unexposed⟩⟩

/-- What a dispatch relies on does not depend on the finalizer and the status of the application. -/
theorem Underway.patch (h : Underway o n c) :
    Underway (patched c o p) n (c.put .updated (patched c o p)) := by
  have hturns := h.turns_patched p
  have hsame := h.get?_patched p
  have hpods := h.workable.pods.elsewhere h.workable.tame.keyed hturns.tame.keyed fun id hid =>
    hsame id (hid ▸ by decide)
  have hingress := h.workable.ingress
  rw [← hsame (ingressFor o).id (by decide : "Ingress" ≠ WebApp.kind)] at hingress
  refine ⟨hturns.there, h.kind, h.active, hturns.tame, ?_, ?_, ?_, ?_⟩
  all_goals
    obtain ⟨spec, status, add, remove⟩ := p
    obtain rfl : spec = none := hp
  · exact h.workable.replicas
  · exact h.workable.spec
  · exact ⟨hpods.near, hpods.wanted, hpods.free, hpods.unheld⟩
  · exact hingress

end Patched

/-- What a pass has served stays to be served. -/
theorem Underway.served {o : ManagedObject} {n : Nat} {c c' : Cluster} (h : Underway o n c)
    (hserved : Served o n c c') : Underway o n c' := by
  have hstored : c'.get? o.id = c.get? o.id := hserved.elsewhere o.id
    (h.kind ▸ by decide) (h.kind ▸ by decide) (h.kind ▸ by decide)
  refine ⟨hstored.trans h.stored, h.kind, h.active, hserved.tame, h.workable.replicas,
    h.workable.spec, ?_, fun hexposed found hfound => ?_⟩
  · exact hserved.fulfilled.pods.attainable hserved.tame.keyed h.workable.pods.wanted
  · cases (hserved.fulfilled.ingress.unexposed hexposed).symm.trans hfound

/-- When and why a dispatch starts. -/
structure Round where
  now : Nat
  causes : List TriggerCause := []
  retry : Option RetryInfo := none

/-- A dispatch for an identity. -/
def serve (d : Dispatcher plainInterface) (id : ResourceId) (r : Round) (c : Cluster) :
    DispatchProcess.Outcome plainInterface × Cluster :=
  (d.host handlers).start r.now ⟨id, r.causes⟩ r.retry c

/-- What a dispatch tells its reconciler before the pass. -/
def Round.context (r : Round) (id : ResourceId) : Context where
  primary := id
  retry := r.retry
  causes := r.causes

/-- A write of a dispatch is done at once. -/
theorem advance_write (now : Nat) (o : ManagedObject) (p : ObjectPatch)
    (k : Except Error ManagedObject → Dispatching plainInterface DispatchSummary) (c : Cluster) :
    DispatchProcess.advance handlers now ((Dispatcher.write o p).bind k) c =
      DispatchProcess.advance handlers now (k (c.patch o.id o.version p).1)
        (c.patch o.id o.version p).2 :=
  rfl

theorem advance_pass (now : Nat) (w : Workflow plainInterface) (mode : PassMode)
    (o : ManagedObject) (ctx : Context)
    (k : PassResult → Dispatching plainInterface DispatchSummary) {c c' : Cluster}
    {result : PassResult}
    (hsettle : (w.pass mode o ctx).settle plainPrompt now c = (.over result, c')) :
    DispatchProcess.advance handlers now ((Dispatcher.pass w mode o ctx).bind k) c =
      DispatchProcess.advance handlers now (k result) c' := by
  have hnodes : (w.pass mode o ctx).settle handlers.nodes now c = (.over result, c') := hsettle
  change DispatchProcess.advance handlers now (.call (.pass w mode o ctx) k) c = _
  conv_lhs => unfold DispatchProcess.advance
  rw [hnodes]

theorem advance_observe (now : Nat) (id : ResourceId)
    (k : Option ManagedObject → Dispatching plainInterface DispatchSummary) (c : Cluster) :
    DispatchProcess.advance handlers now
        (Action.bind (Dispatcher.askPrimary (.observe id)) k) c =
      DispatchProcess.advance handlers now (k (c.get? id)) c :=
  rfl

theorem advance_reconcile (now : Nat) (o : ManagedObject) (ctx : Context)
    (k : Except Error ReconcileVerdict → Dispatching plainInterface DispatchSummary)
    (c : Cluster) :
    DispatchProcess.advance handlers now
        (Action.bind (Dispatcher.askPrimary (.reconcile o ctx)) k) c =
      DispatchProcess.advance handlers now
        (k (reconcile o ctx (c.ownedBy ctx.primary "Pod").length)) c :=
  rfl

/-- The status that the reconciler reports when everything is there. -/
abbrev readyStatus (o : ManagedObject) (n : Nat) : Json := status o n n true

theorem reflexive_readyStatus (o : ManagedObject) (n : Nat) : (readyStatus o n).Reflexive := by
  refine Json.reflexive_object _ ?_
  rw [List.forall_mem_cons, List.forall_mem_cons, List.forall_mem_cons, List.forall_mem_singleton]
  exact ⟨Json.reflexive_nat _, Json.reflexive_nat n, Json.reflexive_nat n, Json.reflexive_bool true⟩

section Dispatches
variable (d : Dispatcher plainInterface) {f : String} (hf : d.finalizer = some f)
  {o : ManagedObject} {n : Nat} {c : Cluster} (h : Underway o n c) (r : Round)
include h

theorem serve_active :
    serve d o.id r c = DispatchProcess.advance handlers r.now
      (d.reconcileActive o (r.context o.id)) c := by
  refine (advance_observe r.now o.id _ c).trans ?_
  rw [h.stored]
  dsimp only
  rw [if_neg (Bool.eq_false_iff.mp h.active)]
  rfl

theorem Underway.patch_eq (p : ObjectPatch) :
    c.patch o.id o.version p = (.ok (patched c o p), c.put .updated (patched c o p)) :=
  c.patch_of_stored o h.stored (h.workable.tame.peaceful o.id) p (h.isReleased_patched p)

include hf

/-- The dispatch of an application without the finalizer adds it and does nothing else. -/
theorem serve_unheld (hlacks : o.hasFinalizer f = false) :
    serve d o.id r c =
      (.over (some (.addedFinalizer (patched c o (.withFinalizer f)))),
        c.put .updated (patched c o (.withFinalizer f))) := by
  rw [serve_active d h r]
  unfold Dispatcher.reconcileActive
  rw [(d.missingFinalizer?_eq_some_iff f hf o).mpr hlacks]
  refine (advance_write r.now o (.withFinalizer f) _ c).trans ?_
  rw [h.patch_eq]
  rfl

variable {room : Nat} (hw : d.workflow = some (workflow room))
include hw

/-- The dispatch of an application with the finalizer is a pass, and a write of the status unless
it says so already. -/
theorem serve_held (hheld : o.hasFinalizer f = true) :
    ∃ c', Served o n c c' ∧
      serve d o.id r c =
        if o.status == some (readyStatus o n) then (.over (some (.succeeded none none)), c')
        else (.over (some (.succeeded (some (patched c' o (.setStatus (readyStatus o n)))) none)),
          c'.put .updated (patched c' o (.setStatus (readyStatus o n)))) := by
  obtain ⟨result, c', hsettle, hok, hready, hsettled, hserved⟩ :=
    pass_run room r.now o n (r.context o.id) h.workable
  have hcount : (c'.ownedBy o.id "Pod").length = n := by
    have hlength := (pods_perm hserved.tame.keyed hserved.fulfilled.pods).length_eq
    rwa [List.length_map, List.length_map, List.length_range] at hlength
  refine ⟨c', hserved, ?_⟩
  rw [serve_active d h r]
  unfold Dispatcher.reconcileActive
  rw [(d.missingFinalizer?_eq_none_iff f hf o).mpr hheld]
  dsimp only
  unfold Dispatcher.reconcile
  rw [hw]
  dsimp only
  refine (advance_pass r.now _ .reconcile o (r.context o.id) _ hsettle).trans ?_
  rw [hok]
  dsimp only
  rw [hsettled]
  refine (advance_reconcile r.now o _ _ c').trans ?_
  let ctx := { r.context o.id with passResult := some result }
  have hverdict : reconcile o ctx (c'.ownedBy o.id "Pod").length =
      .ok { update := .status (readyStatus o n) } := by
    unfold reconcile
    rw [h.workable.replicas, hcount]
    change Except.ok ({ update := .status (status o n n result.allReady) } : ReconcileVerdict) = _
    rw [hready]
  change DispatchProcess.advance handlers r.now (Dispatcher.conclude o ctx none
    (reconcile o ctx (c'.ownedBy o.id "Pod").length)) c' = _
  rw [hverdict]
  unfold Dispatcher.conclude Dispatcher.applyUpdate Dispatcher.patchFor
  dsimp only
  cases o.status == some (readyStatus o n) with
  | true => rfl
  | false =>
    refine (advance_write r.now o (.setStatus (readyStatus o n)) _ c').trans ?_
    rw [(h.served hserved).patch_eq]
    rfl

end Dispatches
end Reconciliation.WebApp
