import Reconciliation.Proofs.Controller.Supervision

/-!
Primaries that are made anew under an identity that was used before. The event of the new
object waits for a dispatch of its own, also behind the dispatch of the old object. Two
exceptions are part of the design: once the deletion of the old object is known, everything goes
with the dispatch in flight, and a dispatch that removes the finalizer closes its identity.
-/
namespace Reconciliation

/-- An event of the identity is in the ready queue, or waits for the end of a dispatch. -/
def Scheduler.HoldsEvent (s : Scheduler) (id : ResourceId) : Prop :=
  ∃ st, s.stateOf? id = some st ∧ st.event = .pending ∧
    (s.running = true → st.inFlight = true ∨ (st.queued = true ∧ id ∈ s.ready))

theorem Activity.Coherent.holdsEvent {c : SchedulerConfig} {a : Activity} (h : Coherent c a)
    (id : ResourceId) (hwaits : a.scheduler.Awaits id) : a.scheduler.HoldsEvent id := by
  obtain ⟨st, hst, hpending⟩ := hwaits
  have hfits := h.orderly id st hst
  refine ⟨st, hst, hpending, fun hrunning => ?_⟩
  exact (hfits.prompt hrunning hpending).imp_right fun hq => ⟨hq, hfits.in_ready hq⟩

/-- A deletion waits only for a dispatch in flight. -/
theorem Activity.Coherent.inFlight_of_deleted {c : SchedulerConfig} {a : Activity}
    (h : Coherent c a) (id : ResourceId) (hd : (a.scheduler.stateOf id).event = .deleted) :
    id ∈ a.inFlight := by
  cases hst : a.scheduler.stateOf? id with
  | none =>
    rw [Scheduler.stateOf, hst] at hd
    cases hd
  | some st =>
    rw [Scheduler.stateOf, hst] at hd
    have hflight := (h.orderly id st hst).sound.deleted_inFlight hd
    exact (h.tracked id).mpr ((Scheduler.isInFlight_iff _ id).mpr ⟨st, hst, hflight⟩)

namespace Supervision

/-- The new object of an identity waits for a dispatch, unless the deletion of the old one is
still to be worked off. -/
theorem awaits_handle_added (s : Supervision) (cluster : Cluster) (e : ChangeEvent)
    (hkind : e.object.id.kind = s.controller.settings.kind)
    (hscope : s.controller.settings.inScope e.object = true) (hadded : e.action = .added)
    (hactive : e.object.isTerminating = false)
    (hd : (s.activity.scheduler.stateOf e.object.id).event ≠ .deleted) :
    (s.handle cluster e).activity.scheduler.Awaits e.object.id := by
  have hrecords : Activity.Records s.activity.scheduler e.object.id
      (.submit e.object.id .added false) := .submit .added false (by decide) hd fun _ => rfl
  have hstep := Activity.Step.submit s.activity e.object.id .added false
  have hwaits := hstep.records e.object.id hrecords
  simp only [handle, Controller.handleEvent_added _ _ _ _ hkind hscope hadded, hactive]
  exact hwaits

/-- A primary that is made anew is not forgotten. After its event was handled and while the
object is not deleted again, a dispatch of it has begun or the event is held. Both exceptions
need a dispatch that was in flight when the event was handled: it removes the finalizer when it
ends, or the deletion of the old object was reported while it was in flight. -/
theorem Trace.added_not_forgotten (settings : Settings) (config : SchedulerConfig)
    (before after : List Act) (s t : Supervision) (cluster : Cluster) (e : ChangeEvent)
    (hbefore : Trace (fresh settings config) before s)
    (hafter : Trace (s.handle cluster e) after t)
    (hkind : e.object.id.kind = settings.kind) (hscope : settings.inScope e.object = true)
    (hadded : e.action = .added) (hactive : e.object.isTerminating = false)
    (hlast : ∀ act ∈ after, ¬act.Deletes e.object.id) :
    (∃ act ∈ after, act.Begins e.object.id) ∨
    t.activity.scheduler.HoldsEvent e.object.id ∨
    (e.object.id ∈ s.activity.inFlight ∧
      ((∃ act ∈ after, act.Releases e.object.id) ∨ Act.LeavesDeleted e.object.id before)) := by
  have hreach : Reachable settings config s := ⟨before, hbefore⟩
  have hc := hreach.coherent
  by_cases hd : (s.activity.scheduler.stateOf e.object.id).event = .deleted
  · refine Or.inr (Or.inr ⟨hc.inFlight_of_deleted e.object.id hd, Or.inr ?_⟩)
    rcases hbefore.deleted_before (Activity.coherent_fresh config) e.object.id hd with
      hleaves | ⟨hfresh, _⟩
    · exact hleaves
    · cases hfresh
  · rw [← hreach.settings] at hkind hscope
    have hnext := (Step.handle s cluster e).coherent hc
    have hwaits := s.awaits_handle_added cluster e hkind hscope hadded hactive hd
    rcases hafter.awaits hnext e.object.id hwaits with
      hwaits | hbegins | ⟨act, hact, hdeletes⟩ | ⟨hflight, hreleases⟩
    · exact Or.inr (Or.inl ((hafter.coherent hnext).holdsEvent e.object.id hwaits))
    · exact Or.inl hbegins
    · exact absurd hdeletes (hlast act hact)
    · exact Or.inr (Or.inr ⟨hflight, Or.inl hreleases⟩)

def sampleSettings : Settings :=
  { Settings.forKind "App" with finalizer := some "example.com/hold" }

/-- A primary in scope of these settings. -/
def sample : ManagedObject := { id := ⟨"App", none, "app"⟩, spec := .null }

/-- The same primary while it is deleted. -/
def sampleLeaving : ManagedObject :=
  { sample with
    finalizers := .ofList ["example.com/hold"], deletionRequestedAt := some (.ofMillis 0) }

/-- A dependent of that primary. -/
def samplePart : ManagedObject :=
  { id := ⟨"Pod", none, "app-pod"⟩, spec := .null, owner := some sample.id }

def report (action : ChangeAction) (o : ManagedObject) : Act := .handle {} ⟨action, o⟩

/-- The primary is dispatched once and then deleted. -/
def wholeLife : List Act :=
  [.move .run, report .added sample, .move .takeWorker,
    .move (.begin ⟨sample.id, [.added]⟩ none),
    .move (.finish sample.id (.succeeded none none)), report .deleted sample]

/-- The primary that is made again after its first life waits in the ready queue. -/
theorem added_not_forgotten_wholeLife :
    ∃ s t, Trace (fresh sampleSettings {}) wholeLife s ∧
      Trace (s.handle {} ⟨.added, sample⟩) [.move .takeWorker] t ∧
      t.activity.scheduler.running = true ∧ t.activity.scheduler.HoldsEvent sample.id := by
  have hrun : ((fresh sampleSettings {}).replay? wholeLife).any (fun s =>
      s.activity.inFlight = [] ∧
        ((s.handle {} ⟨.added, sample⟩).replay? [.move .takeWorker]).any
          (fun t => t.activity.scheduler.running)) = true := by
    decide
  obtain ⟨s, hs, hrest⟩ := (Option.any_eq_true _ _).mp hrun
  obtain ⟨hidle, hrest⟩ := of_decide_eq_true hrest
  obtain ⟨t, ht, hrunning⟩ := (Option.any_eq_true _ _).mp hrest
  have hbefore := replay?_sound _ s _ hs
  have hafter := replay?_sound _ t _ ht
  refine ⟨s, t, hbefore, hafter, hrunning, ?_⟩
  have hkept := Trace.added_not_forgotten sampleSettings {} wholeLife [.move .takeWorker] s t {}
    ⟨.added, sample⟩ hbefore hafter rfl (by decide) rfl rfl
    (fun act hact hdeletes => by
      obtain rfl := List.mem_singleton.mp hact
      cases hdeletes)
  rcases hkept with ⟨act, hact, hbegins⟩ | hholds | ⟨hflight, _⟩
  · obtain rfl := List.mem_singleton.mp hact
    cases hbegins
  · exact hholds
  · rw [hidle] at hflight
    cases hflight

/-- The event of the new primary comes between the acts, and at their end no dispatch of it has
begun and no event is held. -/
def Forgets (before after : List Act) : Prop :=
  ∃ s t, Trace (fresh sampleSettings {}) before s ∧
    Trace (s.handle {} ⟨.added, sample⟩) after t ∧ t.activity.scheduler.running = true ∧
    (∀ act ∈ after, ¬act.Begins sample.id) ∧ ¬t.activity.scheduler.HoldsEvent sample.id

/-- The end of a dispatch is no new one. -/
theorem forgets_of_finish (before : List Act) (summary : DispatchSummary)
    (h : ((fresh sampleSettings {}).replay? before).any (fun s =>
      ((s.handle {} ⟨.added, sample⟩).replay? [.move (.finish sample.id summary)]).any (fun t =>
        t.activity.scheduler.running &&
          (t.activity.scheduler.stateOf? sample.id).all (fun st => st.event ≠ .pending))) = true) :
    Forgets before [.move (.finish sample.id summary)] := by
  obtain ⟨s, hs, hrest⟩ := (Option.any_eq_true _ _).mp h
  obtain ⟨t, ht, hend⟩ := (Option.any_eq_true _ _).mp hrest
  obtain ⟨hrunning, hquiet⟩ := Bool.and_eq_true_iff.mp hend
  refine ⟨s, t, replay?_sound _ s _ hs, replay?_sound _ t _ ht, hrunning, ?_, ?_⟩
  · intro act hact hbegins
    obtain rfl := List.mem_singleton.mp hact
    cases hbegins
  · rintro ⟨st, hst, hpending, _⟩
    rw [hst] at hquiet
    exact of_decide_eq_true hquiet hpending

/-- The deletion and the new object are both reported while the first dispatch is in flight. -/
def overtaken : List Act :=
  [.move .run, report .added sample, .move .takeWorker,
    .move (.begin ⟨sample.id, [.added]⟩ none), report .deleted sample]

/-- A dependent is reported ahead of the primary, which the cluster is already deleting. -/
def partFirst : List Act :=
  [.move .run,
    .handle { objects := ({} : SortedMap ResourceId ManagedObject).insert sample.id sampleLeaving }
      ⟨.updated, samplePart⟩,
    .move .takeWorker, .move (.begin ⟨sample.id, [.dependentEvent]⟩ none)]

/-- A new primary is forgotten with the state of the old one, or with its own finalizer. -/
theorem added_forgotten_in_flight :
    Forgets overtaken [.move (.finish sample.id (.succeeded none none))] ∧
    Forgets partFirst [.move (.finish sample.id (.removedFinalizer none))] :=
  ⟨forgets_of_finish _ _ (by decide), forgets_of_finish _ _ (by decide)⟩

end Supervision
end Reconciliation
