import Reconciliation.Proofs.WebApp.Dispatch

/-!
The controller of web applications converges. Of two dispatches the first one at most adds the
finalizer, and the next one brings the dependents and the status to what the application asks
for. Every dispatch after that finds nothing to write.
-/
namespace Reconciliation.WebApp

open Client Owned

/-- The number of replicas that the spec asks for. -/
def Asks (o : ManagedObject) (n : Nat) : Prop :=
  (o.spec.get? "replicas" = none ∧ n = 1) ∨
    (o.spec.get? "replicas" = some (.nat n) ∧ n ≤ maxReplicas)

theorem replicas_of_asks (o : ManagedObject) (n : Nat) (h : Asks o n) : replicas o = .ok n := by
  unfold replicas
  obtain ⟨hspec, rfl⟩ | ⟨hspec, hle⟩ := h
  · rw [hspec]
  · have hasked : (Json.nat n).asNat? maxReplicas = some n := if_pos hle
    rw [hspec]
    dsimp only
    rw [hasked]

/-- An application that is to be served. Nobody else has its pods, those that it owns are in its
own namespace, and nothing holds what is to be deleted. Its spec is equal to itself, as is every
value that can be written down. -/
structure Startable (o : ManagedObject) (n : Nat) (c : Cluster) : Prop where
  stored : c.get? o.id = some o
  kind : o.id.kind = kind
  active : o.isTerminating = false
  asks : Asks o n
  spec : o.spec.Reflexive
  free : ∀ i < n, ∀ pod, c.get? (podId o i) = some pod → pod.owner = some o.id
  near : ∀ pod ∈ c.ownedBy o.id "Pod", pod.id.ns = o.id.ns
  unheld : ∀ pod ∈ c.ownedBy o.id "Pod", pod.finalizers.isEmpty = true
  ingress_unheld : ∀ found, c.get? (ingressFor o).id = some found →
    found.finalizers.isEmpty = true
  peaceful : ∀ id, c.conflictsLeft id = 0

theorem Startable.underway {o : ManagedObject} {n : Nat} {ws : List ClusterWrite}
    (h : Startable o n (.ofHistory ws)) : Underway o n (.ofHistory ws) := by
  have htame := Cluster.tame_ofHistory ws h.peaceful
  refine ⟨h.stored, h.kind, h.active, htame, replicas_of_asks o n h.asks, h.spec,
    ⟨h.near, fun name want hwant => ?_, fun name want hwant found hfound => ?_,
      fun pod hpod _ => h.unheld pod hpod⟩, fun _ => h.ingress_unheld⟩
  · obtain ⟨_, rfl⟩ := (get?_podsFor o n name want).mp hwant
    exact ⟨rfl, rfl, reflexive_podSpec o⟩
  · obtain ⟨⟨i, hi, rfl⟩, _⟩ := (get?_podsFor o n name want).mp hwant
    exact h.free i hi found hfound

/-- The cluster holds what an application with so many replicas asks for, and the application
says so. -/
structure Converged (f : String) (o : ManagedObject) (n : Nat) (c : Cluster) : Prop where
  stored : c.get? o.id = some o
  finalizer : o.hasFinalizer f = true
  config : ∃ config, c.get? (configFor o).id = some config ∧
    (config.spec == (configFor o).spec) = true
  pods : ((c.ownedBy o.id "Pod").map (·.id)).Perm ((List.range n).map (podId o))
  podSpecs : ∀ pod ∈ c.ownedBy o.id "Pod", (pod.spec == podSpec o) = true
  exposed : isExposed o = true → ∃ ingress, c.get? (ingressFor o).id = some ingress ∧
    (ingress.spec == (ingressFor o).spec) = true
  unexposed : isExposed o = false → c.get? (ingressFor o).id = none
  status : (o.status == some (readyStatus o n)) = true

/-- What is left to say once the finalizer, the dependents and the status are as they are to be. -/
theorem Underway.converged {f : String} {o : ManagedObject} {n : Nat} {c : Cluster}
    (h : Underway o n c) (hheld : o.hasFinalizer f = true) (hfulfilled : Fulfilled o n c)
    (hstatus : (o.status == some (readyStatus o n)) = true) : Converged f o n c := by
  have hkeyed := h.workable.tame.keyed
  refine ⟨h.stored, hheld, ?_, pods_perm hkeyed hfulfilled.pods, fun pod hpod => ?_,
    fun hexposed => ?_, hfulfilled.ingress.unexposed, hstatus⟩
  · obtain ⟨_, config, hstored, _, hagrees⟩ := hfulfilled.config
    exact ⟨config, hstored, hagrees⟩
  · obtain ⟨_, _, _, hspec⟩ := mem_pods hkeyed hfulfilled.pods pod hpod
    exact hspec
  · obtain ⟨_, ingress, hstored, _, hagrees⟩ := hfulfilled.ingress.exposed hexposed
    exact ⟨ingress, hstored, hagrees⟩

/-- The same application, up to its status and its finalizers. -/
structure Continues (o o' : ManagedObject) : Prop where
  id : o'.id = o.id
  spec : o'.spec = o.spec
  generation : o'.generation = o.generation

theorem Continues.patched {o o' : ManagedObject} (h : Continues o o') (c : Cluster)
    (p : ObjectPatch) (hp : p.spec = none) : Continues o (patched c o' p) := by
  obtain ⟨spec, status, add, remove⟩ := p
  obtain rfl : spec = none := hp
  exact ⟨h.id, h.spec, h.generation⟩

/-- How far so many dispatches have brought an application. -/
structure Stage (f : String) (o : ManagedObject) (n k : Nat) (o' : ManagedObject) (c : Cluster) :
    Prop where
  continues : Continues o o'
  underway : Underway o' n c
  held : 1 ≤ k → o'.hasFinalizer f = true
  fulfilled : 2 ≤ k → Fulfilled o' n c
  status : 2 ≤ k → (o'.status == some (readyStatus o' n)) = true

/-- The cluster after dispatches for an identity, one after another. -/
def after (d : Dispatcher plainInterface) (id : ResourceId) (rounds : List Round)
    (c : Cluster) : Cluster :=
  rounds.foldl (fun c r => (serve d id r c).2) c

section Dispatches
variable (d : Dispatcher plainInterface) {f : String} (hf : d.finalizer = some f) {room : Nat}
  (hw : d.workflow = some (workflow room)) {o : ManagedObject} {n : Nat}

theorem hasFinalizer_patched (c : Cluster) (o : ManagedObject) (f : String) :
    (patched c o (.withFinalizer f)).hasFinalizer f = true := by
  change ((SortedMap.insert o.finalizers f ()).get? f).isSome = true
  rw [SortedMap.get?_insert_self]
  rfl

include hf hw

/-- One dispatch more. From the third one on there is nothing to write. -/
theorem Stage.step {k : Nat} {o' : ManagedObject} {c : Cluster} (h : Stage f o n k o' c)
    (r : Round) :
    ∃ summary o'' c', serve d o.id r c = (.over (some summary), c') ∧ summary.error = none ∧
      Stage f o n (k + 1) o'' c' ∧ (2 ≤ k → c' = c ∧ summary.reschedule = none) := by
  rw [← h.continues.id]
  cases hheld : o'.hasFinalizer f with
  | false =>
    -- only the first dispatch finds the application without the finalizer
    have hk : k = 0 := by
      by_contra hne
      cases hheld.symm.trans (h.held (Nat.pos_of_ne_zero hne))
    subst hk
    refine ⟨_, _, _, serve_unheld d hf h.underway r hheld, rfl,
      ⟨h.continues.patched c _ rfl, h.underway.patch _ rfl,
        fun _ => hasFinalizer_patched c o' f, ?_, ?_⟩, ?_⟩
    all_goals
      intro hle
      omega
  | true =>
    obtain ⟨c', hserved, hserve⟩ := serve_held d hf h.underway r hw hheld
    have hunderway := h.underway.served hserved
    cases hstatus : o'.status == some (readyStatus o' n) with
    | true =>
      rw [hstatus, if_pos rfl] at hserve
      exact ⟨_, o', c', hserve, rfl, ⟨h.continues, hunderway, fun _ => hheld,
        fun _ => hserved.fulfilled, fun _ => hstatus⟩,
        fun hle => ⟨hserved.quiet (h.fulfilled hle), rfl⟩⟩
    | false =>
      rw [hstatus, if_neg Bool.false_ne_true] at hserve
      refine ⟨_, _, _, hserve, rfl, ⟨h.continues.patched c' _ rfl, hunderway.patch _ rfl,
        fun _ => hheld, fun _ => hunderway.fulfilled_patched _ rfl hserved.fulfilled,
        fun _ => reflexive_readyStatus o' n⟩, fun hle => ?_⟩
      cases hstatus.symm.trans (h.status hle)

theorem Stage.after {k : Nat} {o' : ManagedObject} {c : Cluster} (h : Stage f o n k o' c)
    (rounds : List Round) :
    ∃ o'', Stage f o n (k + rounds.length) o'' (after d o.id rounds c) := by
  induction rounds generalizing k o' c with
  | nil => exact ⟨o', h⟩
  | cons r rest ih =>
    obtain ⟨summary, o₁, c₁, hserve, _, hstage, _⟩ := h.step d hf hw r
    have hlength : k + (rest.length + 1) = k + 1 + rest.length := by omega
    rw [WebApp.after, List.foldl_cons, hserve, List.length_cons, hlength]
    exact ih hstage

end Dispatches

/-- Whatever is left of former dependents, dispatches of an application end without an error. After
two of them everything is as the application asks for, and any other one writes nothing and asks
for no other. -/
theorem two_dispatches_converge (d : Dispatcher plainInterface) (f : String)
    (hf : d.finalizer = some f) (room : Nat) (w : Workflow plainInterface)
    (hbuilt : ((workflowPlan plain).withMaxConcurrency room).build = .ok w)
    (hw : d.workflow = some w) (ws : List ClusterWrite) (o : ManagedObject) (n : Nat)
    (h : Startable o n (.ofHistory ws)) (rounds : List Round) :
    (∀ r, ∃ summary, (serve d o.id r (after d o.id rounds (.ofHistory ws))).1 =
      .over (some summary) ∧ summary.error = none) ∧
    (2 ≤ rounds.length →
      (∃ o', Continues o o' ∧ Converged f o' n (after d o.id rounds (.ofHistory ws))) ∧
      ∀ r, ∃ summary, serve d o.id r (after d o.id rounds (.ofHistory ws)) =
        (.over (some summary), after d o.id rounds (.ofHistory ws)) ∧
        summary.error = none ∧ summary.reschedule = none) := by
  obtain rfl := Except.ok.inj ((build_workflowPlan room).symm.trans hbuilt)
  have hstart : Stage f o n 0 o (.ofHistory ws) :=
    ⟨⟨rfl, rfl, rfl⟩, h.underway, nofun, nofun, nofun⟩
  obtain ⟨o', hstage⟩ := hstart.after d hf hw rounds
  rw [Nat.zero_add] at hstage
  have hstep := hstage.step d hf hw
  refine ⟨fun r => ?_, fun hlength => ⟨⟨o', hstage.continues, ?_⟩, fun r => ?_⟩⟩
  · obtain ⟨summary, _, _, hserve, hok, _, _⟩ := hstep r
    exact ⟨summary, congrArg Prod.fst hserve, hok⟩
  · exact hstage.underway.converged (hstage.held (by omega)) (hstage.fulfilled hlength)
      (hstage.status hlength)
  · obtain ⟨summary, _, c', hserve, hok, _, hquiet⟩ := hstep r
    obtain ⟨rfl, hreschedule⟩ := hquiet hlength
    exact ⟨summary, hserve, hok, hreschedule⟩

/-- An application that is not exposed. -/
def bakery : ManagedObject where
  id := ⟨kind, some "shop", "bakery"⟩
  spec := .object [("replicas", .nat 2)]

/-- An object of the application that a former spec has left. -/
def leftover (kind name : String) : ManagedObject where
  id := bakery.id.sibling kind name
  spec := .null
  owner := some bakery.id

/-- The application with a pod and an ingress that it does not ask for any more. -/
def bakeryHistory : List ClusterWrite :=
  [.create bakery, .create (leftover "Pod" "bakery-7"), .create (leftover "Ingress" "bakery")]

/-- The application as it is stored. -/
def bakeryStored : ManagedObject := { bakery with version := ⟨1⟩, generation := 1 }

/-- A dispatcher of web applications. -/
def bakeryDispatcher : Dispatcher plainInterface where
  finalizer := some finalizer
  readinessRecheck := .zero
  workflow := some (workflow usualConcurrency)

/-- Two dispatches bring the bakery to what it asks for, and clear away what a former spec has
left. -/
theorem two_dispatches_converge_bakery :
    Startable bakeryStored 2 (.ofHistory bakeryHistory) ∧
    ∃ o', Continues bakeryStored o' ∧ Converged finalizer o' 2
      (after bakeryDispatcher bakery.id [⟨0, [], none⟩, ⟨7, [], none⟩]
        (.ofHistory bakeryHistory)) := by
  have hstart : Startable bakeryStored 2 (.ofHistory bakeryHistory) := by
    have habsent : ∀ i < 2,
        ((Cluster.ofHistory bakeryHistory).get? (podId bakeryStored i)).isNone = true := by decide
    refine ⟨rfl, rfl, rfl, Or.inr ⟨rfl, by decide⟩, rfl, fun i hi pod hpod => ?_, by decide,
      by decide, fun found hfound => ?_, fun _ => rfl⟩
    · have hnone := habsent i hi
      rw [hpod] at hnone
      cases hnone
    · cases hfound
      rfl
  exact ⟨hstart, ((two_dispatches_converge bakeryDispatcher finalizer rfl usualConcurrency _ rfl rfl
    bakeryHistory bakeryStored 2 hstart [⟨0, [], none⟩, ⟨7, [], none⟩]).2 (by decide)).1⟩

end Reconciliation.WebApp
