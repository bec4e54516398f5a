import Reconciliation.Controller.Basic
import Reconciliation.Proofs.Scheduler.Deletion
import Reconciliation.Proofs.Scheduler.Pending

/-!
A controller at work. It handles the changes of the cluster in their order, and between two of
them its scheduler goes on with its dispatches and timers. Handling a change comes down to one
trigger at most, so what holds of the scheduler after each of its moves also holds here.
-/
namespace Reconciliation

/-- A controller with the scheduler that it feeds. -/
structure Supervision where
  controller : Controller
  activity : Activity

/-- The move is a trigger, which only the controller gives. -/
def Move.isTrigger : Move → Bool
  | .submit .. => true
  | _ => false

/-- A change is handled, or the scheduler goes on by itself. -/
inductive Act where
  | handle (cluster : Cluster) (e : ChangeEvent)
  | move (m : Move)

namespace Act

/-- A dispatch of the identity begins. -/
inductive Begins (id : ResourceId) : Act → Prop
  | begin (request : ReconciliationRequest) (retry : Option RetryInfo) (hid : request.id = id) :
      Begins id (.move (.begin request retry))

/-- A dispatch of the identity begins or ends. -/
inductive Bounds (id : ResourceId) : Act → Prop
  | move (m : Move) (h : Activity.Bounds id m) : Bounds id (.move m)

/-- A dispatch of the identity ends and has removed the finalizer. -/
inductive Releases (id : ResourceId) : Act → Prop
  | finish (summary : DispatchSummary) (hf : summary.finalizerRemoved = true) :
      Releases id (.move (.finish id summary))

/-- The object is reported as deleted. -/
inductive Deletes (id : ResourceId) : Act → Prop
  | handle (cluster : Cluster) (e : ChangeEvent) (hid : e.object.id = id)
      (hdeleted : e.action = .deleted) : Deletes id (.handle cluster e)

/-- The object was reported as deleted, and no dispatch of the identity has begun or ended
since. -/
def LeavesDeleted (id : ResourceId) (acts : List Act) : Prop :=
  ∃ before act since, acts = before ++ act :: since ∧ act.Deletes id ∧ ∀ x ∈ since, ¬x.Bounds id

theorem LeavesDeleted.cons {id : ResourceId} {acts : List Act} (h : LeavesDeleted id acts)
    (first : Act) : LeavesDeleted id (first :: acts) := by
  obtain ⟨before, act, since, rfl, hdeletes, hsince⟩ := h
  exact ⟨first :: before, act, since, rfl, hdeletes, hsince⟩

/-- The move of the scheduler that an act can come down to. Only the deletion of an object
triggers it as deleted. -/
inductive Makes : Act → Move → Prop
  | move (m : Move) (hm : m.isTrigger = false) : Makes (.move m) m
  | handle (cluster : Cluster) (e : ChangeEvent) (id : ResourceId) (cause : TriggerCause)
      (terminating : Bool)
      (hdeleted : cause = .deleted → e.object.id = id ∧ e.action = .deleted) :
      Makes (.handle cluster e) (.submit id cause terminating)

theorem Makes.deletes {act : Act} {id : ResourceId} (terminating : Bool)
    (h : act.Makes (.submit id .deleted terminating)) : act.Deletes id := by
  cases h with
  | move m htrigger => cases htrigger
  | handle cluster e id cause terminating hdeleted =>
    obtain ⟨hid, haction⟩ := hdeleted rfl
    exact .handle cluster e hid haction

theorem Makes.takes {act : Act} {m : Move} {id : ResourceId} (h : act.Makes m)
    (hm : Activity.Consumes id m) : act.Begins id ∨ act.Deletes id ∨ act.Releases id := by
  cases hm with
  | begin request retry hid hc =>
    cases h
    exact Or.inl (.begin request retry hid)
  | deleted terminating => exact Or.inr (Or.inl (h.deletes terminating))
  | finish summary hremoved =>
    cases h
    exact Or.inr (Or.inr (.finish summary hremoved))

end Act

namespace Controller
variable (c : Controller) (cluster : Cluster) (e : ChangeEvent) (s : Scheduler)

theorem handleSecondary_trigger (owner : ResourceId) :
    c.handleSecondary cluster owner s = s ∨
      ∃ id terminating,
        c.handleSecondary cluster owner s = s.trigger id .dependentEvent terminating := by
  unfold handleSecondary
  split
  · exact Or.inl rfl
  · rename_i primary _
    split
    · exact Or.inr ⟨primary.id, primary.isTerminating, rfl⟩
    · exact Or.inl rfl

/-- An event gives the scheduler one trigger or none. -/
theorem handleEvent_trigger :
    (c.handleEvent cluster e s).2 = s ∨
      ∃ id cause terminating,
        (c.handleEvent cluster e s).2 = s.trigger id cause terminating ∧
        (cause = .deleted → e.object.id = id ∧ e.action = .deleted) := by
  unfold handleEvent
  split
  · unfold handlePrimary
    dsimp only
    split
    · exact Or.inl rfl
    cases haction : e.action with
    | deleted => exact Or.inr ⟨e.object.id, .deleted, false, rfl, fun _ => ⟨rfl, rfl⟩⟩
    | added =>
      exact Or.inr ⟨e.object.id, .added, e.object.isTerminating, rfl, fun hcause => by cases hcause⟩
    | updated =>
      dsimp only
      split
      · exact Or.inl rfl
      · exact Or.inr
          ⟨e.object.id, .updated, e.object.isTerminating, rfl, fun hcause => by cases hcause⟩
  · cases c.primaryOwner? e.object with
    | none => exact Or.inl rfl
    | some owner =>
      rcases c.handleSecondary_trigger cluster s owner with hsame | ⟨id, terminating, htrigger⟩
      · exact Or.inl hsame
      · exact Or.inr ⟨id, .dependentEvent, terminating, htrigger, fun hcause => by cases hcause⟩

@[simp] theorem handleEvent_settings :
    (c.handleEvent cluster e s).1.settings = c.settings := by
  unfold handleEvent handlePrimary
  grind

/-- A new primary in scope is always triggered. -/
theorem handleEvent_added (hkind : e.object.id.kind = c.settings.kind)
    (hscope : c.settings.inScope e.object = true) (hadded : e.action = .added) :
    (c.handleEvent cluster e s).2 = s.trigger e.object.id .added e.object.isTerminating := by
  unfold handleEvent handlePrimary
  simp [hkind, hscope, hadded, submit, ChangeAction.cause]

end Controller

/-- A dispatch is in flight only since it began. -/
theorem Activity.Step.inFlight_since {a b : Activity} {m : Move} (h : Step a m b)
    (id : ResourceId) (hf : id ∈ b.inFlight) :
    id ∈ a.inFlight ∨ ∃ request retry, m = .begin request retry ∧ request.id = id := by
  cases h with
  | begin k rest request retry s hl hr hb =>
    obtain ⟨_, _, _, _, rfl, _, _⟩ := Scheduler.begin?_eq_some _ k request retry s hb
    rcases List.mem_cons.mp hf with rfl | hbefore
    · exact Or.inr ⟨_, retry, rfl, rfl⟩
    · exact Or.inl hbefore
  | finish k summary hflight hc => exact Or.inl (List.mem_of_mem_erase hf)
  | _ => exact Or.inl hf

namespace Supervision

/-- A new controller with a new scheduler. -/
def fresh (settings : Settings) (config : SchedulerConfig) : Supervision where
  controller := { settings }
  activity := .fresh config

def handle (s : Supervision) (cluster : Cluster) (e : ChangeEvent) : Supervision where
  controller := (s.controller.handleEvent cluster e s.activity.scheduler).1
  activity :=
    { s.activity with
      scheduler := (s.controller.handleEvent cluster e s.activity.scheduler).2 }

/-- Changes come at any time and with any cluster; the scheduler is triggered by nothing
else. -/
inductive Step : Supervision → Act → Supervision → Prop
  | handle (s : Supervision) (cluster : Cluster) (e : ChangeEvent) :
      Step s (.handle cluster e) (s.handle cluster e)
  | move (s : Supervision) (m : Move) (a : Activity) (hm : m.isTrigger = false)
      (h : Activity.Step s.activity m a) : Step s (.move m) { s with activity := a }

inductive Trace : Supervision → List Act → Supervision → Prop
  | nil (s : Supervision) : Trace s [] s
  | cons {s t u : Supervision} {act : Act} {acts : List Act} :
      Step s act t → Trace t acts u → Trace s (act :: acts) u

/-- The states that a new controller can come to. -/
def Reachable (settings : Settings) (config : SchedulerConfig) (s : Supervision) : Prop :=
  ∃ acts, Trace (fresh settings config) acts s

theorem Trace.preserves {P : Supervision → Prop}
    (hP : ∀ s act t, Step s act t → P s → P t) {s t : Supervision} {acts : List Act}
    (h : Trace s acts t) (hs : P s) : P t := by
  induction h with
  | nil s => exact hs
  | cons hstep _ ih => exact ih (hP _ _ _ hstep hs)

/-- Events that are handed on together are handled one after another. -/
theorem trace_handleEvents (s : Supervision) (cluster : Cluster) (es : List ChangeEvent) :
    Trace s (es.map (.handle cluster))
      { controller := (s.controller.handleEvents cluster es s.activity.scheduler).1
        activity :=
          { s.activity with
            scheduler := (s.controller.handleEvents cluster es s.activity.scheduler).2 } } := by
  induction es generalizing s with
  | nil => exact .nil s
  | cons e rest ih => exact .cons (.handle s cluster e) (ih (s.handle cluster e))

/-- Every act comes down to one move of the scheduler, unless it is a change that concerns no
primary. -/
theorem Step.moves {s t : Supervision} {act : Act} (h : Step s act t) :
    (t.activity = s.activity ∧ ∃ cluster e, act = .handle cluster e) ∨
      ∃ m, Activity.Step s.activity m t.activity ∧ act.Makes m := by
  cases h with
  | handle cluster e =>
    rcases s.controller.handleEvent_trigger cluster e s.activity.scheduler with
      hsame | ⟨id, cause, terminating, htrigger, hdeleted⟩
    · refine Or.inl ⟨?_, cluster, e, rfl⟩
      simp only [Supervision.handle, hsame]
    · refine Or.inr ⟨.submit id cause terminating, ?_, .handle cluster e id cause terminating
        hdeleted⟩
      simp only [Supervision.handle, htrigger]
      exact .submit s.activity id cause terminating
  | move m a hm ha => exact Or.inr ⟨m, ha, .move m hm⟩

theorem Step.settings {s t : Supervision} {act : Act} (h : Step s act t) :
    t.controller.settings = s.controller.settings := by
  cases h with
  | handle cluster e => exact s.controller.handleEvent_settings cluster e s.activity.scheduler
  | move m a hm ha => rfl

section Run
variable {config : SchedulerConfig} {s t : Supervision} {act : Act} {acts : List Act}

theorem Step.coherent (h : Step s act t) (hc : s.activity.Coherent config) :
    t.activity.Coherent config := by
  rcases h.moves with ⟨hsame, _⟩ | ⟨m, hstep, _⟩
  · rw [hsame]
    exact hc
  · exact hstep.coherent hc

theorem Trace.coherent (h : Trace s acts t) (hc : s.activity.Coherent config) :
    t.activity.Coherent config :=
  h.preserves (fun _ _ _ hstep => hstep.coherent) hc

theorem Reachable.coherent {settings : Settings} (h : Reachable settings config s) :
    s.activity.Coherent config := by
  obtain ⟨acts, htrace⟩ := h
  exact htrace.coherent (Activity.coherent_fresh config)

theorem Reachable.settings {settings : Settings} (h : Reachable settings config s) :
    s.controller.settings = settings := by
  obtain ⟨acts, htrace⟩ := h
  exact htrace.preserves (P := fun s => s.controller.settings = settings)
    (fun _ _ _ hstep hs => hstep.settings.trans hs) rfl

theorem Step.inFlight_since (h : Step s act t) (id : ResourceId)
    (hf : id ∈ t.activity.inFlight) : id ∈ s.activity.inFlight ∨ act.Begins id := by
  rcases h.moves with ⟨hsame, _⟩ | ⟨m, hstep, hmakes⟩
  · rw [hsame] at hf
    exact Or.inl hf
  · rcases hstep.inFlight_since id hf with hbefore | ⟨request, retry, rfl, hid⟩
    · exact Or.inl hbefore
    · cases hmakes
      exact Or.inr (.begin request retry hid)

/-- The dispatch that removes a finalizer was in flight. -/
theorem Step.releases_inFlight (h : Step s act t) (id : ResourceId) (hr : act.Releases id) :
    id ∈ s.activity.inFlight := by
  cases hr with
  | finish summary hremoved =>
    cases h with
    | move m a hm hstep =>
      cases hstep with
      | finish id summary hf hc => exact hf

/-- An identity comes to be marked as deleted only by a report of the deletion. -/
theorem Step.deleted_before (h : Step s act t) (hc : s.activity.Coherent config)
    (id : ResourceId) (hd : (t.activity.scheduler.stateOf id).event = .deleted) :
    act.Deletes id ∨ ((s.activity.scheduler.stateOf id).event = .deleted ∧ ¬act.Bounds id) := by
  rcases h.moves with ⟨hsame, cluster, e, rfl⟩ | ⟨m, hstep, hmakes⟩
  · rw [hsame] at hd
    exact Or.inr ⟨hd, fun hact => by cases hact⟩
  rcases hstep.deleted_before hc id hd with ⟨terminating, rfl⟩ | ⟨hbefore, hbounds⟩
  · exact Or.inl (hmakes.deletes terminating)
  · refine Or.inr ⟨hbefore, fun hact => ?_⟩
    cases hact with
    | move m' hm' =>
      cases hmakes
      exact hbounds hm'

/-- The mark of a deletion stands for a report of it that came during the dispatch that is
still in flight. -/
theorem Trace.deleted_before (h : Trace s acts t) (hc : s.activity.Coherent config)
    (id : ResourceId) (hd : (t.activity.scheduler.stateOf id).event = .deleted) :
    Act.LeavesDeleted id acts ∨
      ((s.activity.scheduler.stateOf id).event = .deleted ∧ ∀ act ∈ acts, ¬act.Bounds id) := by
  induction h with
  | nil s => exact Or.inr ⟨hd, fun _ hmem => by cases hmem⟩
  | @cons s t u act acts hstep _ ih =>
    rcases ih (hstep.coherent hc) hd with hleaves | ⟨hbefore, hrest⟩
    · exact Or.inl (hleaves.cons act)
    · rcases hstep.deleted_before hc id hbefore with hdeletes | ⟨hfirst, hbounds⟩
      · exact Or.inl ⟨[], act, acts, rfl, hdeletes, hrest⟩
      · exact Or.inr ⟨hfirst, List.forall_mem_cons.mpr ⟨hbounds, hrest⟩⟩

theorem Step.awaits (h : Step s act t) (hc : s.activity.Coherent config) (id : ResourceId)
    (hwaits : s.activity.scheduler.Awaits id) :
    t.activity.scheduler.Awaits id ∨ act.Begins id ∨ act.Deletes id ∨ act.Releases id := by
  rcases h.moves with ⟨hsame, _⟩ | ⟨m, hstep, hmakes⟩
  · rw [hsame]
    exact Or.inl hwaits
  · exact (hstep.awaits hc id hwaits).imp_right hmakes.takes

/-- An event waits until a dispatch begins or the object is deleted, or until a dispatch that
was in flight all the time removes the finalizer. -/
theorem Trace.awaits (h : Trace s acts t) (hc : s.activity.Coherent config) (id : ResourceId)
    (hwaits : s.activity.scheduler.Awaits id) :
    t.activity.scheduler.Awaits id ∨ (∃ act ∈ acts, act.Begins id) ∨
      (∃ act ∈ acts, act.Deletes id) ∨
      (id ∈ s.activity.inFlight ∧ ∃ act ∈ acts, act.Releases id) := by
  induction h with
  | nil s => exact Or.inl hwaits
  | @cons s t u act acts hstep _ ih =>
    have hhere : act ∈ act :: acts := List.mem_cons_self
    rcases hstep.awaits hc id hwaits with hnext | hbegins | hdeletes | hreleases
    · rcases ih (hstep.coherent hc) hnext with
        hlast | ⟨x, hx, hbegins⟩ | ⟨x, hx, hdeletes⟩ | ⟨hflight, x, hx, hreleases⟩
      · exact Or.inl hlast
      · exact Or.inr (Or.inl ⟨x, List.mem_cons_of_mem act hx, hbegins⟩)
      · exact Or.inr (Or.inr (Or.inl ⟨x, List.mem_cons_of_mem act hx, hdeletes⟩))
      · rcases hstep.inFlight_since id hflight with hbefore | hbegins
        · exact Or.inr (Or.inr (Or.inr
            ⟨hbefore, x, List.mem_cons_of_mem act hx, hreleases⟩))
        · exact Or.inr (Or.inl ⟨act, hhere, hbegins⟩)
    · exact Or.inr (Or.inl ⟨act, hhere, hbegins⟩)
    · exact Or.inr (Or.inr (Or.inl ⟨act, hhere, hdeletes⟩))
    · exact Or.inr (Or.inr (Or.inr
        ⟨hstep.releases_inFlight id hreleases, act, hhere, hreleases⟩))

end Run

section Replay

def step? (s : Supervision) : Act → Option Supervision
  | .handle cluster e => some (s.handle cluster e)
  | .move m =>
    if m.isTrigger then none else (s.activity.step? m).map fun a => { s with activity := a }

def replay? (s : Supervision) : List Act → Option Supervision
  | [] => some s
  | act :: acts => (s.step? act).bind fun t => t.replay? acts

/-- What is computed for an act is a step that it can take. -/
theorem step?_sound (s t : Supervision) (act : Act) (h : s.step? act = some t) :
    Step s act t := by
  cases act with
  | handle cluster e =>
    cases h
    exact .handle s cluster e
  | move m =>
    simp only [step?] at h
    split at h
    · cases h
    · rename_i hm
      obtain ⟨a, hstep, rfl⟩ := Option.map_eq_some_iff.mp h
      exact .move s m a (Bool.eq_false_iff.mpr hm) (Activity.step?_sound _ a m hstep)

/-- What is replayed can happen. -/
theorem replay?_sound (s t : Supervision) (acts : List Act) (h : s.replay? acts = some t) :
    Trace s acts t := by
  induction acts generalizing s with
  | nil =>
    obtain rfl := Option.some.inj h
    exact .nil _
  | cons act rest ih =>
    obtain ⟨next, hstep, hrest⟩ := Option.bind_eq_some_iff.mp h
    exact .cons (step?_sound s next act hstep) (ih next hrest)

end Replay

end Supervision
end Reconciliation
