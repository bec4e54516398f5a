import Reconciliation.Proofs.Workflow.Notices
import Reconciliation.Proofs.Dispatch.Licence

/-!
The finalizer brackets the work on dependents. It is there before any of them is reconciled, and
it goes only after all of them are settled and the reconciler has agreed. A terminating primary
that lacks the configured finalizer is left alone.
-/
namespace Reconciliation

namespace DispatchCall
variable {I : Interface}

/-- The reconciler's or the nodes' work on an active primary. -/
def Reconciles : DispatchCall I → Prop
  | primary (.reconcile ..) => True
  | pass _ mode _ _ => mode = .reconcile
  | _ => False

/-- A write that takes the finalizer away. -/
def Removes (f : String) : DispatchCall I → Prop
  | primary (.patch _ _ p) => p.removeFinalizer = some f
  | _ => False

end DispatchCall

namespace Dispatcher
variable {I : Interface} {σ : Type}

theorem observation_injective (id : ResourceId) (a b : Option ManagedObject)
    (h : (observation id a : Exchange (dispatching I)) = observation id b) : a = b := by
  unfold observation at h
  injection h

/-- A dispatch reads its primary once. -/
theorem read_eq (id : ResourceId) (o o' : ManagedObject) (rest rest' : Past I)
    (h : observation id (some o) :: rest = observation id (some o') :: rest') :
    o = o' ∧ rest = rest' := by
  obtain ⟨ho, hrest⟩ := List.cons.inj h
  exact ⟨Option.some.inj (observation_injective id _ _ ho), hrest⟩

theorem missingFinalizer?_eq_some_iff (d : Dispatcher I) (f : String) (hf : d.finalizer = some f)
    (o : ManagedObject) : d.missingFinalizer? o = some f ↔ o.hasFinalizer f = false := by
  unfold missingFinalizer?
  rw [hf]
  simp

theorem missingFinalizer?_eq_none_iff (d : Dispatcher I) (f : String) (hf : d.finalizer = some f)
    (o : ManagedObject) : d.missingFinalizer? o = none ↔ o.hasFinalizer f = true := by
  unfold missingFinalizer?
  rw [hf]
  simp

section Read
variable {d : Dispatcher I} {id : ResourceId} {past rest : Past I} {o : ManagedObject}

/-- A primary without the configured finalizer only gets it, if it is active. -/
theorem Licensed.of_lacking {c : DispatchCall I} (h : d.Licensed id past c)
    (hpast : past = observation id (some o) :: rest) (f : String)
    (hlacks : d.missingFinalizer? o = some f) :
    rest = [] ∧ o.isTerminating = false ∧
      c = .primary (.patch o.id o.version (.withFinalizer f)) := by
  have hnone : ∀ o' rest', observation id (some o') :: rest' = observation id (some o) :: rest →
      d.missingFinalizer? o' ≠ none := by
    intro o' rest' heq hholds
    rw [(read_eq id o' o rest' rest heq).1, hlacks] at hholds
    cases hholds
  cases h with
  | observe => cases hpast
  | addFinalizer o' f' hactive hlacks' =>
    obtain ⟨rfl, hrest⟩ := read_eq id o' o [] rest hpast
    rw [hlacks] at hlacks'
    obtain rfl := Option.some.inj hlacks'
    exact ⟨hrest.symm, hactive, rfl⟩
  | pass o' hholds => exact absurd hholds (hnone o' _ hpast)
  | reconcile o' hactive hholds => exact absurd hholds (hnone o' _ hpast)
  | errorStatus o' hactive hholds => exact absurd hholds (hnone o' _ hpast)
  | write o' hactive hholds => exact absurd hholds (hnone o' _ hpast)
  | cleanup o' hterminating hholds => exact absurd hholds (hnone o' _ hpast)
  | removeFinalizer o' hterminating hholds => exact absurd hholds (hnone o' _ hpast)

theorem Licensed.of_reconciles {c : DispatchCall I} (h : d.Licensed id past c)
    (hc : c.Reconciles) :
    ∃ o rest, past = observation id (some o) :: rest ∧ o.isTerminating = false ∧
      d.missingFinalizer? o = none := by
  cases h with
  | pass o hholds w hw mode hmode => exact ⟨o, [], rfl, hmode.mp hc, hholds⟩
  | reconcile o hactive hholds past => exact ⟨o, past, rfl, hactive, hholds⟩
  | _ => cases hc

theorem DependentsGone.not_removes (h : d.DependentsGone o past) (f : String) :
    ∀ e ∈ past, ¬ DispatchCall.Removes f e.call := by
  intro e he hremoves
  cases h with
  | without hw => cases he
  | settled w hw ctx r hr =>
    obtain rfl := List.mem_singleton.mp he
    exact hremoves

/-- The removal of the finalizer comes once, at the end of a cleanup. -/
theorem Licensed.of_removes {c : DispatchCall I} (h : d.Licensed id past c) (f : String)
    (hc : c.Removes f) :
    (∀ e ∈ past, ¬ DispatchCall.Removes f e.call) ∧ ∃ o before ctx,
      past = observation id (some o) :: before ++ [agreement o ctx] ∧ o.isTerminating = true ∧
        d.missingFinalizer? o = none ∧ d.DependentsGone o before := by
  cases h with
  | removeFinalizer o hterminating hholds before hbefore ctx f' hf' =>
    refine ⟨fun e he => ?_, o, before, ctx, rfl, hterminating, hholds, hbefore⟩
    rw [List.mem_append, List.mem_cons, List.mem_singleton] at he
    rcases he with (rfl | he) | rfl
    · exact not_false
    · exact hbefore.not_removes f e he
    · exact not_false
  | write o hactive hholds rest p hp =>
    have hremove : p.removeFinalizer = some f := hc
    rw [hp.2] at hremove
    cases hremove
  | _ => cases hc

theorem Licensed.of_cleanup {ctx : Context} (h : d.Licensed id past (.primary (.cleanup o ctx))) :
    ∃ rest, past = observation id (some o) :: rest ∧ d.DependentsGone o rest := by
  cases h with
  | cleanup _ hterminating hholds rest hrest => exact ⟨rest, rfl, hrest⟩

theorem Licensed.workflow_of_pass {w : Workflow I} {mode : PassMode} {ctx : Context}
    (h : d.Licensed id past (.pass w mode o ctx)) : d.workflow = some w := by
  cases h with
  | pass _ hholds _ hw => exact hw

/-- A dispatch of a primary that lacks the finalizer ends with nothing done, or with the finalizer
added. -/
theorem Concluded.of_lacking {summary : DispatchSummary} (h : d.Concluded id past summary)
    (hpast : past = observation id (some o) :: rest) (f : String)
    (hlacks : d.missingFinalizer? o = some f) :
    (o.isTerminating = true ∧ rest = [] ∧ summary = .skip) ∨
      (o.isTerminating = false ∧
        ∃ r, rest = [⟨.primary (.patch o.id o.version (.withFinalizer f)), r⟩]) := by
  cases h with
  | gone => cases observation_injective id _ _ (List.cons.inj hpast).1
  | foreign o' f' hterminating hlacks' =>
    obtain ⟨rfl, hrest⟩ := read_eq id o' o [] rest hpast
    exact Or.inl ⟨hterminating, hrest.symm, rfl⟩
  | finalizerAdded o' f' hactive hlacks' r =>
    obtain ⟨rfl, hrest⟩ := read_eq id o' o _ rest hpast
    rw [hlacks] at hlacks'
    obtain rfl := Option.some.inj hlacks'
    exact Or.inr ⟨hactive, r, hrest.symm⟩
  | handled o' hholds past' =>
    obtain ⟨rfl, hrest⟩ := read_eq id o' o past' rest hpast
    rw [hlacks] at hholds
    cases hholds

end Read

/-- How the finalizer brackets a dispatch, given what has happened and what is left of it. -/
structure Bracketed (d : Dispatcher I) (f : String) (env : Environment I σ) (id : ResourceId)
    (past : Past I) (t : Dispatching I DispatchSummary) : Prop where
  /-- An active primary that lacks the finalizer gets it, and nothing else is called. -/
  lacking : ∀ o rest, past = observation id (some o) :: rest → o.isTerminating = false →
    o.hasFinalizer f = false →
      (rest = [] ∧ ∃ k, t = .call (.primary (.patch o.id o.version (.withFinalizer f))) k) ∨
        ∃ r summary, rest = [⟨.primary (.patch o.id o.version (.withFinalizer f)), r⟩] ∧
          t = .done summary
  /-- Only an active primary that holds the finalizer is reconciled. -/
  reconciles : ∀ c k, t = .call c k → DispatchCall.Reconciles c →
    ∃ o rest, past = observation id (some o) :: rest ∧ o.isTerminating = false ∧
      o.hasFinalizer f = true
  /-- Nodes are reconciled in passes of that mode only. -/
  nodes : ∀ w mode o ctx k, t = .call (.pass w mode o ctx) k → ∀ standing calls,
    (w.pass mode o ctx).Course env standing calls →
      ∀ c ∈ calls, ∃ n ∈ w.nodes, n.node.MayCall env mode o ctx c
  /-- The finalizer goes once, after the dependents are settled and the reconciler agrees. -/
  removes : ∀ c k, t = .call c k → DispatchCall.Removes f c →
    (∀ e ∈ past, ¬ DispatchCall.Removes f e.call) ∧ ∃ o before ctx,
      past = observation id (some o) :: before ++ [agreement o ctx] ∧ o.isTerminating = true ∧
        o.hasFinalizer f = true ∧ d.DependentsGone o before
  /-- The reconciler cleans up after the dependents are settled. -/
  cleanup : ∀ o ctx k, t = .call (.primary (.cleanup o ctx)) k →
    ∃ rest, past = observation id (some o) :: rest ∧ d.DependentsGone o rest

theorem leads_keepsTo (d : Dispatcher I)
    (hbuilt : ∀ w, d.workflow = some w → ∃ p : WorkflowPlan I, p.build = .ok w)
    (env : Environment I σ) (request : ReconciliationRequest) (retry : Option RetryInfo)
    (past : Past I) (t : Dispatching I DispatchSummary)
    (h : (d.dispatch request retry).Leads (DispatchCall.Possible env) past t) :
    d.KeepsTo request.id env past t := by
  have hformed : ∀ w, d.workflow = some w → w.WellFormed := by
    intro w hw
    obtain ⟨p, hp⟩ := hbuilt w hw
    exact (p.build_wellFormed w hp).1
  exact h.obeys (d.dispatch_keepsTo env hformed request retry)

/-- Whatever the cluster, the reconciler and the nodes answer, the finalizer brackets the dispatch.
An active primary gets it before anything is reconciled; it is taken from a terminating one once,
after its dependents are settled and the reconciler has agreed. -/
theorem dispatch_bracketed (d : Dispatcher I) (f : String) (hf : d.finalizer = some f)
    (hbuilt : ∀ w, d.workflow = some w → ∃ p : WorkflowPlan I, p.build = .ok w)
    (env : Environment I σ) (request : ReconciliationRequest) (retry : Option RetryInfo)
    (past : Past I) (t : Dispatching I DispatchSummary)
    (h : (d.dispatch request retry).Leads (DispatchCall.Possible env) past t) :
    d.Bracketed f env request.id past t := by
  have hkeeps := d.leads_keepsTo hbuilt env request retry past t h
  have hholds := d.missingFinalizer?_eq_none_iff f hf
  have hlicensed : ∀ c k, t = .call c k → d.Licensed request.id past c := by
    rintro c k rfl
    exact hkeeps.1
  refine ⟨fun o rest hpast hactive hlacks => ?_, fun c k ht hc => ?_,
    fun w mode o ctx k ht standing calls hcourse => ?_, fun c k ht hc => ?_,
    fun o ctx k ht => (hlicensed _ k ht).of_cleanup⟩
  · have hmissing := (d.missingFinalizer?_eq_some_iff f hf o).mpr hlacks
    cases t with
    | done summary =>
      rcases Concluded.of_lacking hkeeps hpast f hmissing with ⟨hterminating, _⟩ | ⟨_, r, hrest⟩
      · rw [hactive] at hterminating
        cases hterminating
      · exact Or.inr ⟨r, summary, hrest, rfl⟩
    | call c k =>
      obtain ⟨hrest, _, rfl⟩ := hkeeps.1.of_lacking hpast f hmissing
      exact Or.inl ⟨hrest, k, rfl⟩
  · obtain ⟨o, rest, hpast, hactive, hmissing⟩ := (hlicensed c k ht).of_reconciles hc
    exact ⟨o, rest, hpast, hactive, (hholds o).mp hmissing⟩
  · obtain ⟨p, hp⟩ := hbuilt w (hlicensed _ k ht).workflow_of_pass
    exact (hcourse.calls_of_nodes (p.build_wellFormed w hp).1).1
  · obtain ⟨honce, o, before, ctx, hpast, hterminating, hmissing, hgone⟩ :=
      (hlicensed c k ht).of_removes f hc
    exact ⟨honce, o, before, ctx, hpast, hterminating, (hholds o).mp hmissing, hgone⟩

/-- Nodes that show which of their parts is used. -/
abbrev parts : Interface := ⟨String × Node.Part, fun _ => Unit⟩

def prompt : Environment parts Unit := .prompt fun _ s => ((), s)

def openNode (name : String) (dependsOn : List String) : Node parts where
  name := name
  dependsOn := dependsOn
  capability := ⟨.mutating, .singleton⟩
  check kind _ _ := some (.call (name, .check kind) fun _ => .done (.ok true))
  reconcile _ _ := .call (name, .reconcile) fun _ => .done (.ok { created := 1 })
  delete _ _ := .call (name, .delete) fun _ => .done (.ok { deleted := 1 })

def shop : WorkflowPlan parts where
  name := "shop"
  nodes := [openNode "store" [], openNode "page" ["store"]]

def shopkeeper : Dispatcher parts where
  finalizer := some "example.com/cleanup"
  readinessRecheck := .zero
  workflow := some (shop.ordered [0, 1])

theorem shopkeeper_built (w : Workflow parts) (hw : shopkeeper.workflow = some w) :
    ∃ p : WorkflowPlan parts, p.build = .ok w := by
  rw [← Option.some.inj hw]
  exact ⟨shop, rfl⟩

def leaving : ManagedObject where
  id := ⟨"Shop", none, "corner"⟩
  spec := .null
  finalizers := .ofList ["example.com/cleanup"]
  deletionRequestedAt := some (.ofMillis 0)

/-- The result of the cleanup pass of the shop. -/
def emptied : PassResult where
  mode := .cleanup
  declared := ["store", "page"]
  recorded := [("page", .succeeded { deleted := 1 }), ("store", .succeeded { deleted := 1 })]

/-- The removal of the finalizer comes after the pass and the agreement. -/
theorem dispatch_bracketed_leaving : ∃ past k,
    (shopkeeper.dispatch ⟨leaving.id, []⟩ none).Leads (DispatchCall.Possible prompt) past
      (.call (.primary (.patch leaving.id leaving.version
        (.withoutFinalizer "example.com/cleanup"))) k) ∧
      past.length = 3 ∧ ∃ before, shopkeeper.DependentsGone leaving before := by
  have hpass : DispatchCall.Possible prompt
      (.pass (shop.ordered [0, 1]) .cleanup leaving { primary := leaving.id }) emptied :=
    ⟨_, .settle _ _ .begin 0 ()⟩
  have hstart : (shopkeeper.dispatch ⟨leaving.id, []⟩ none).Leads (DispatchCall.Possible prompt)
    [] (shopkeeper.dispatch ⟨leaving.id, []⟩ none) := .start
  have hread := hstart.answer _ _ _ (some leaving) trivial
  have hemptied := hread.answer _ _ _ emptied hpass
  have hagreed := hemptied.answer _ _ _ (.ok .proceed : Except Error CleanupVerdict) trivial
  have hbracketed := shopkeeper.dispatch_bracketed "example.com/cleanup" rfl shopkeeper_built
    prompt ⟨leaving.id, []⟩ none _ _ hagreed
  obtain ⟨_, o, before, ctx, hpast, _, _, hgone⟩ := hbracketed.removes _ _ rfl rfl
  obtain ⟨rfl, _⟩ := read_eq leaving.id leaving o _ _ hpast
  exact ⟨_, _, hagreed, rfl, before, hgone⟩

/-- A terminating primary that lacks the configured finalizer is not cleaned up: it is read and
nothing else is called. -/
theorem foreign_left_alone (d : Dispatcher I) (f : String) (hf : d.finalizer = some f)
    (hbuilt : ∀ w, d.workflow = some w → ∃ p : WorkflowPlan I, p.build = .ok w)
    (env : Environment I σ) (request : ReconciliationRequest) (retry : Option RetryInfo)
    (past : Past I) (t : Dispatching I DispatchSummary)
    (h : (d.dispatch request retry).Leads (DispatchCall.Possible env) past t)
    (o : ManagedObject) (rest : Past I) (hpast : past = observation request.id (some o) :: rest)
    (hterminating : o.isTerminating = true) (hlacks : o.hasFinalizer f = false) :
    rest = [] ∧ t = .done .skip := by
  have hkeeps := d.leads_keepsTo hbuilt env request retry past t h
  have hmissing := (d.missingFinalizer?_eq_some_iff f hf o).mpr hlacks
  cases t with
  | done summary =>
    rcases Concluded.of_lacking hkeeps hpast f hmissing with ⟨_, hrest, rfl⟩ | ⟨hactive, _⟩
    · exact ⟨hrest, rfl⟩
    · rw [hterminating] at hactive
      cases hactive
  | call c k =>
    obtain ⟨_, hactive, _⟩ := hkeeps.1.of_lacking hpast f hmissing
    rw [hterminating] at hactive
    cases hactive

/-- A primary that only someone else's finalizer holds. -/
def held : ManagedObject := { leaving with finalizers := .ofList ["example.com/backup"] }

/-- Somebody else's finalizer does not make the primary one that is cleaned up. -/
theorem foreign_left_alone_held : ∃ past t,
    (shopkeeper.dispatch ⟨held.id, []⟩ none).Leads (DispatchCall.Possible prompt) past t ∧
      past = [observation held.id (some held)] ∧ t = .done .skip := by
  have hstart : (shopkeeper.dispatch ⟨held.id, []⟩ none).Leads (DispatchCall.Possible prompt)
    [] (shopkeeper.dispatch ⟨held.id, []⟩ none) := .start
  have hread := hstart.answer _ _ _ (some held) trivial
  obtain ⟨_, hskipped⟩ := shopkeeper.foreign_left_alone "example.com/cleanup" rfl shopkeeper_built
    prompt ⟨held.id, []⟩ none _ _ hread held [] rfl rfl rfl
  exact ⟨_, _, hread, rfl, hskipped⟩

/-- Without a configured finalizer such a primary is cleaned up as if it were the engine's. -/
theorem held_cleaned_up_without_finalizer :
    ∃ d : Dispatcher parts, d.finalizer = none ∧ held.isTerminating = true ∧ ∃ k,
      (d.dispatch ⟨held.id, []⟩ none).Leads (DispatchCall.Possible prompt)
        [observation held.id (some held)]
        (.call (.primary (.cleanup held { primary := held.id })) k) := by
  have hstart : ((⟨none, .zero, none⟩ : Dispatcher parts).dispatch ⟨held.id, []⟩ none).Leads
    (DispatchCall.Possible prompt) []
    ((⟨none, .zero, none⟩ : Dispatcher parts).dispatch ⟨held.id, []⟩ none) := .start
  have hread := hstart.answer _ _ _ (some held) trivial
  exact ⟨⟨none, .zero, none⟩, rfl, rfl, _, hread⟩

end Dispatcher
end Reconciliation
