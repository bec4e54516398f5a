import Reconciliation.Proofs.Cluster.Continuity
import Reconciliation.Proofs.Controller.Recreation

/-!
The updates that a controller leaves out. It compares generations, and what it remembers of a
primary in scope is the generation that the handled events show. Since the generation of an
object changes with its spec and with nothing else, an update is left out just when the spec is
the one of the event before.
-/
namespace Reconciliation

/-- The event that is handled, if one is. -/
def Act.event? : Act → Option ChangeEvent
  | handle _ e => some e
  | move _ => none

/-- The events that are handled, in order. -/
def Act.handled (acts : List Act) : List ChangeEvent := acts.filterMap Act.event?

theorem Settings.inScope_congr (s : Settings) {o o' : ManagedObject} (hid : o.id = o'.id)
    (hlabels : o.labels = o'.labels) : s.inScope o = s.inScope o' := by
  unfold inScope
  rw [hid, hlabels]

namespace Controller

/-- The event triggers its object, whatever the cluster and the scheduler are. -/
def Submits (c : Controller) (e : ChangeEvent) : Prop :=
  ∀ cluster s, (c.handleEvent cluster e s).2 = submit s e.object e.action.cause

/-- The event leaves the controller and the scheduler as they are. -/
def Drops (c : Controller) (e : ChangeEvent) : Prop :=
  ∀ cluster s, c.handleEvent cluster e s = (c, s)

section
variable (c : Controller) (e : ChangeEvent) (hkind : e.object.id.kind = c.settings.kind)

/-- A trigger that reports no deletion makes an identity known. -/
theorem stateOf?_submit_ne_none (o : ManagedObject) (cause : TriggerCause)
    (hcause : cause ≠ .deleted) :
    (submit { config := {} } o cause).stateOf? o.id ≠ none := by
  have heq : submit { config := {} } o cause =
      Scheduler.put { config := {} } o.id (({} : IdentityState).markEvent cause) := by
    unfold submit Scheduler.trigger
    rw [if_neg hcause]
    rfl
  rw [heq, Scheduler.stateOf?_put, if_pos rfl]
  exact nofun

theorem Drops.not_submits {c : Controller} {e : ChangeEvent} (h : c.Drops e)
    (hupdated : e.action = .updated) : ¬c.Submits e := by
  intro hsubmits
  have hstate := hsubmits {} { config := {} }
  rw [h {} { config := {} }, hupdated] at hstate
  exact stateOf?_submit_ne_none e.object .updated nofun (by rw [← ChangeAction.cause, ← hstate]; rfl)

include hkind

theorem handleEvent_outOfScope (hscope : c.settings.inScope e.object = false) : c.Drops e := by
  intro cluster s
  unfold handleEvent handlePrimary
  rw [if_pos hkind]
  dsimp only
  rw [hscope]
  rfl

variable (hscope : c.settings.inScope e.object = true)
include hscope

theorem handleEvent_deleted (hdeleted : e.action = .deleted) (cluster : Cluster) (s : Scheduler) :
    c.handleEvent cluster e s =
      ({ c with generations := c.generations.erase e.object.id },
        submit s e.object .deleted) := by
  unfold handleEvent handlePrimary
  rw [if_pos hkind]
  dsimp only
  rw [hscope, hdeleted]
  rfl

/-- A change that is not stale is remembered and submitted. -/
theorem handleEvent_fresh (hpresent : e.action ≠ .deleted)
    (hfresh : e.action = .updated → c.isStaleUpdate e.object = false) (cluster : Cluster)
    (s : Scheduler) :
    c.handleEvent cluster e s =
      ({ c with generations := c.generations.insert e.object.id e.object.generation },
        submit s e.object e.action.cause) := by
  unfold handleEvent handlePrimary
  rw [if_pos hkind]
  dsimp only
  rw [hscope]
  cases haction : e.action with
  | added => rfl
  | updated =>
    dsimp only
    rw [hfresh haction]
    rfl
  | deleted => exact absurd haction hpresent

theorem handleEvent_stale (hupdated : e.action = .updated)
    (hstale : c.isStaleUpdate e.object = true) : c.Drops e := by
  intro cluster s
  unfold handleEvent handlePrimary
  rw [if_pos hkind]
  dsimp only
  rw [hscope, hupdated]
  dsimp only
  rw [hstale]
  rfl

/-- Only updates of active objects can be stale. -/
theorem submits_of_notable
    (h : e.action ≠ .updated ∨ e.object.isTerminating = true) : c.Submits e := by
  intro cluster s
  by_cases hdeleted : e.action = .deleted
  · rw [c.handleEvent_deleted e hkind hscope hdeleted cluster s, hdeleted]
    rfl
  · refine congrArg Prod.snd (c.handleEvent_fresh e hkind hscope hdeleted (fun hupdated => ?_)
      cluster s)
    unfold isStaleUpdate
    rw [h.resolve_left (not_not_intro hupdated), Bool.not_true, Bool.and_false, Bool.false_and]

end

/-- The controller remembers of each primary in scope the generation that the events show. -/
def Remembers (c : Controller) (es : List ChangeEvent) : Prop :=
  ∀ id, id.kind = c.settings.kind → c.generations.get? id =
    (((Cluster.replay es).get? id).filter c.settings.inScope).map (·.generation)

theorem isStaleUpdate_iff {c : Controller} {es : List ChangeEvent} (h : c.Remembers es)
    (haware : c.settings.generationAware = true) (o : ManagedObject)
    (hkind : o.id.kind = c.settings.kind) (hactive : o.isTerminating = false) :
    c.isStaleUpdate o = true ↔ ∃ old, (Cluster.replay es).get? o.id = some old ∧
      c.settings.inScope old = true ∧ old.generation = o.generation := by
  unfold isStaleUpdate
  rw [haware, hactive, h o.id hkind]
  simp [Option.filter_eq_some_iff, and_assoc]

/-- What an event of a primary does to the memory of its controller. -/
inductive Recalls (c : Controller) (e : ChangeEvent) : Controller → Prop
  | ignored (hscope : c.settings.inScope e.object = false) : Recalls c e c
  | forgotten (hscope : c.settings.inScope e.object = true) (hdeleted : e.action = .deleted) :
      Recalls c e { c with generations := c.generations.erase e.object.id }
  | noted (hscope : c.settings.inScope e.object = true) (hpresent : e.action ≠ .deleted) :
      Recalls c e
        { c with generations := c.generations.insert e.object.id e.object.generation }
  | known (hscope : c.settings.inScope e.object = true) (hupdated : e.action = .updated)
      (hknown : c.generations.get? e.object.id = some e.object.generation) : Recalls c e c

/-- Handling an event of a primary leaves its generation behind, or nothing where it is gone. -/
theorem handleEvent_recalls (c : Controller) (e : ChangeEvent)
    (hkind : e.object.id.kind = c.settings.kind) (cluster : Cluster) (s : Scheduler) :
    Recalls c e (c.handleEvent cluster e s).1 := by
  cases hscope : c.settings.inScope e.object with
  | false =>
    rw [c.handleEvent_outOfScope e hkind hscope cluster s]
    exact .ignored hscope
  | true =>
    by_cases hdeleted : e.action = .deleted
    · rw [c.handleEvent_deleted e hkind hscope hdeleted cluster s]
      exact .forgotten hscope hdeleted
    by_cases hstale : e.action = .updated ∧ c.isStaleUpdate e.object = true
    · obtain ⟨hupdated, hstale⟩ := hstale
      rw [c.handleEvent_stale e hkind hscope hupdated hstale cluster s]
      unfold isStaleUpdate at hstale
      exact .known hscope hupdated (eq_of_beq (Bool.and_eq_true_iff.mp hstale).2)
    · rw [c.handleEvent_fresh e hkind hscope hdeleted
        (fun hupdated => Bool.eq_false_iff.mpr fun h => hstale ⟨hupdated, h⟩) cluster s]
      exact .noted hscope hdeleted

section Step
variable {c c' : Controller} {es : List ChangeEvent} {e : ChangeEvent}

/-- An event of one object changes nothing of what is remembered of another one. -/
theorem Recalls.get?_of_ne (hrecalls : Recalls c e c') (id : ResourceId)
    (hne : id ≠ e.object.id) : c'.generations.get? id = c.generations.get? id := by
  cases hrecalls with
  | ignored | known => rfl
  | forgotten => exact c.generations.get?_erase_of_ne e.object.id id hne
  | noted => exact c.generations.get?_insert_of_ne e.object.id e.object.generation id hne

variable (h : c.Remembers es)
include h

/-- The labels of an object stay, so it is in scope for as long as it is there, or never. -/
theorem Remembers.recalls (hrecalls : Recalls c e c') (hkind : e.object.id.kind = c.settings.kind)
    (hlabels : ∀ old, (Cluster.replay es).get? e.object.id = some old →
      c.settings.inScope old = c.settings.inScope e.object) :
    c'.generations.get? e.object.id =
      (((Cluster.replay (es ++ [e])).get? e.object.id).filter c.settings.inScope).map
        (·.generation) := by
  rw [Cluster.replay_concat, Cluster.get?_replayOn_self]
  cases hrecalls with
  | ignored hscope =>
    rw [h e.object.id hkind]
    have hbefore : ((Cluster.replay es).get? e.object.id).filter c.settings.inScope = none := by
      cases hold : (Cluster.replay es).get? e.object.id with
      | none => rfl
      | some old => simp [hlabels old hold, hscope]
    rw [hbefore]
    split
    · rfl
    · rw [Option.filter_some, hscope]
      rfl
  | forgotten hscope hdeleted =>
    rw [if_pos hdeleted]
    exact c.generations.get?_erase_self e.object.id
  | noted hscope hpresent =>
    rw [if_neg hpresent, Option.filter_some, hscope]
    exact c.generations.get?_insert_self e.object.id e.object.generation
  | known hscope hupdated hknown =>
    rw [hknown, hupdated, if_neg nofun, Option.filter_some, hscope]
    rfl

/-- What is remembered stays what the handled events show. -/
theorem Remembers.handleEvent (cluster : Cluster) (s : Scheduler)
    (hlabels : ∀ old, (Cluster.replay es).get? e.object.id = some old →
      c.settings.inScope old = c.settings.inScope e.object) :
    (c.handleEvent cluster e s).1.Remembers (es ++ [e]) := by
  intro id hid
  rw [handleEvent_settings] at hid ⊢
  by_cases hkind : e.object.id.kind = c.settings.kind
  · have hrecalls := c.handleEvent_recalls e hkind cluster s
    by_cases hne : id = e.object.id
    · subst hne
      exact h.recalls hrecalls hkind hlabels
    · rw [hrecalls.get?_of_ne id hne, h id hid, Cluster.replay_concat,
        Cluster.get?_replayOn_of_ne _ _ _ hne]
  · have hne : id ≠ e.object.id := fun heq => hkind (heq ▸ hid)
    have hsame : (c.handleEvent cluster e s).1 = c := by
      unfold Controller.handleEvent
      rw [if_neg hkind]
      cases c.primaryOwner? e.object <;> rfl
    rw [hsame, h id hid, Cluster.replay_concat, Cluster.get?_replayOn_of_ne _ _ _ hne]

end Step
end Controller

namespace Cluster

theorem keyed_replay (es : List ChangeEvent) (id : ResourceId) (o : ManagedObject)
    (ho : (replay es).get? id = some o) : o.id = id := by
  obtain ⟨e, ⟨_, _, _, hid, _, _⟩, rfl⟩ := (get?_replay_iff es id o).mp ho
  exact hid

/-- An event that follows a state of its object has the labels of that state, and its generation
just when it has its spec. -/
theorem Unbroken.follows {es earlier later rest : List ChangeEvent} {e : ChangeEvent}
    (h : Unbroken es) (hsplit : es = earlier ++ later ++ e :: rest) (old : ManagedObject)
    (hold : (replay later).get? e.object.id = some old) : e.Follows (some old) := by
  have hshown := replay_append_of_shown earlier later e.object.id old hold
  exact hshown ▸ h (earlier ++ later) e rest hsplit

end Cluster

theorem ChangeEvent.Follows.inScope {old : ManagedObject} {e : ChangeEvent}
    (h : e.Follows (some old)) (hid : old.id = e.object.id) (settings : Settings) :
    settings.inScope old = settings.inScope e.object := by
  cases h with
  | updated _ _ hlabels => exact settings.inScope_congr hid hlabels.symm
  | deleted _ _ hlabels => exact settings.inScope_congr hid hlabels.symm

theorem ChangeEvent.Follows.generation_iff {old : ManagedObject} {e : ChangeEvent}
    (h : e.Follows (some old)) (hupdated : e.action = .updated) :
    old.generation = e.object.generation ↔ (e.object.spec == old.spec) = true := by
  cases h with
  | updated _ _ _ hspec => exact eq_comm.trans hspec
  | deleted => cases hupdated

namespace Supervision

/-- What a controller remembers after it has handled a part of an unbroken feed. -/
theorem Trace.remembers {s t : Supervision} {acts : List Act} (h : Trace s acts t)
    {es earlier seen rest : List ChangeEvent} (hunbroken : Cluster.Unbroken es)
    (hsplit : es = earlier ++ seen ++ Act.handled acts ++ rest)
    (hs : s.controller.Remembers seen) : t.controller.Remembers (seen ++ Act.handled acts) := by
  induction h generalizing seen with
  | nil s => simpa [Act.handled] using hs
  | @cons s t u act acts hstep _ ih =>
    cases hstep with
    | move m a hm ha => exact ih hsplit hs
    | handle cluster e =>
      have hcons : Act.handled (.handle cluster e :: acts) = e :: Act.handled acts := rfl
      rw [hcons] at hsplit ⊢
      have hnext : es = earlier ++ seen ++ e :: (Act.handled acts ++ rest) := by
        rw [hsplit]
        simp
      have hremembers := hs.handleEvent cluster s.activity.scheduler fun old hold =>
        (hunbroken.follows hnext old hold).inScope (Cluster.keyed_replay seen _ old hold) _
      have hrest : es = earlier ++ (seen ++ [e]) ++ Act.handled acts ++ rest := by
        rw [hsplit]
        simp
      have hlast := ih hrest hremembers
      simpa using hlast

/-- How an event of a primary in scope is taken after these events were handled. -/
structure Filtered (c : Controller) (handled : List ChangeEvent) (e : ChangeEvent) : Prop where
  /-- Only updates of active objects can be left out. -/
  notable : e.action ≠ .updated ∨ e.object.isTerminating = true → c.Submits e
  /-- An update of an active object is submitted if it is the first event of the object or tells
  of another spec than the event before. -/
  update : e.action = .updated → e.object.isTerminating = false →
    (c.Submits e ↔ ∀ prev, Cluster.Latest handled e.object.id prev →
      (e.object.spec == prev.object.spec) = false)
  /-- What is not submitted leaves no trace. -/
  dropped : ¬c.Submits e → c.Drops e

section Part
variable {s t : Supervision} {acts : List Act} (h : Trace s acts t)
  (haware : s.controller.settings.generationAware = true)
  (hempty : s.controller.generations = {}) {es earlier later : List ChangeEvent}
  {e : ChangeEvent} (hunbroken : Cluster.Unbroken es)
  (hfeed : es = earlier ++ Act.handled acts ++ e :: later)
  (hkind : e.object.id.kind = s.controller.settings.kind)
  (hscope : s.controller.settings.inScope e.object = true)
include h haware hempty hunbroken hfeed hkind hscope

/-- From any position of the feed on, the next event of a primary in scope is left out just as it
should be. -/
theorem Trace.filtered : Filtered t.controller (Act.handled acts) e := by
  have hsettings : t.controller.settings = s.controller.settings :=
    h.preserves (P := fun t => t.controller.settings = s.controller.settings)
      (fun _ _ _ hstep ht => hstep.settings.trans ht) rfl
  have hremembers : t.controller.Remembers (Act.handled acts) := by
    have hstart : es = earlier ++ [] ++ Act.handled acts ++ e :: later := by
      rw [hfeed, List.append_nil]
    have hblank : s.controller.Remembers [] := by
      intro id _
      rw [hempty]
      rfl
    exact h.remembers hunbroken hstart hblank
  rw [← hsettings] at haware hkind hscope
  have hnotable := t.controller.submits_of_notable e hkind hscope
  refine ⟨hnotable, fun hupdated hactive => ?_, fun hnot => ?_⟩
  · have hstale := Controller.isStaleUpdate_iff hremembers haware e.object hkind hactive
    constructor
    · intro hsubmits prev hlatest
      by_contra hsame
      have hold := (Cluster.get?_replay_iff _ _ _).mpr ⟨prev, hlatest, rfl⟩
      have hfollows := hunbroken.follows hfeed prev.object hold
      have hstale := hstale.mpr ⟨prev.object, hold,
        (hfollows.inScope (Cluster.keyed_replay _ _ _ hold) _).trans hscope,
        (hfollows.generation_iff hupdated).mpr (Bool.not_eq_false _ ▸ hsame)⟩
      exact (t.controller.handleEvent_stale e hkind hscope hupdated hstale).not_submits hupdated
        hsubmits
    · intro hdiffers cluster sched
      have hfresh : t.controller.isStaleUpdate e.object = false := by
        refine Bool.eq_false_iff.mpr fun hyes => ?_
        obtain ⟨old, hold, _, hgeneration⟩ := hstale.mp hyes
        obtain ⟨prev, hlatest, rfl⟩ := (Cluster.get?_replay_iff _ _ _).mp hold
        have hsame :=
          ((hunbroken.follows hfeed prev.object hold).generation_iff hupdated).mp hgeneration
        exact Bool.false_ne_true ((hdiffers prev hlatest).symm.trans hsame)
      exact congrArg Prod.snd (t.controller.handleEvent_fresh e hkind hscope
        (by rw [hupdated]; exact nofun) (fun _ => hfresh) cluster sched)
  · have hupdated : e.action = .updated := by
      by_contra hother
      exact hnot (hnotable (Or.inl hother))
    cases hstale : t.controller.isStaleUpdate e.object with
    | true => exact t.controller.handleEvent_stale e hkind hscope hupdated hstale
    | false =>
      refine absurd (fun cluster sched => ?_) hnot
      exact congrArg Prod.snd (t.controller.handleEvent_fresh e hkind hscope
        (by rw [hupdated]; exact nofun) (fun _ => hstale) cluster sched)

end Part

/-- A controller that heeds generations handles a part of the feed, from any position on and
without gaps. The next event of a primary in scope is left out just when it is an update of an
active object with the spec of the event before. So a write that comes without a spec never
triggers an active object whose state was handled before. -/
theorem Trace.updates_filtered {s t : Supervision} {acts : List Act} (h : Trace s acts t)
    (haware : s.controller.settings.generationAware = true)
    (hempty : s.controller.generations = {}) (ws : List ClusterWrite)
    (hws : ∀ w ∈ ws, w.ReflexiveSpec) (hfew : (Cluster.ofHistory ws).writeCount < UInt64.size)
    (earlier later : List ChangeEvent) (e : ChangeEvent)
    (hfeed : (Cluster.ofHistory ws).feed = earlier ++ Act.handled acts ++ e :: later)
    (hkind : e.object.id.kind = s.controller.settings.kind)
    (hscope : s.controller.settings.inScope e.object = true) :
    Filtered t.controller (Act.handled acts) e ∧
      ∀ before w, before ++ [w] <+: ws → w.setsSpec = false →
        (Cluster.ofHistory before).feed = earlier ++ Act.handled acts →
        (Cluster.ofHistory (before ++ [w])).feed = earlier ++ Act.handled acts ++ [e] →
        e.action = .updated → e.object.isTerminating = false →
        (∃ prev, Cluster.Latest (Act.handled acts) e.object.id prev) → t.controller.Drops e := by
  obtain ⟨_, hunbroken⟩ := Cluster.unbroken_ofHistory ws hws hfew
  have hfiltered := h.filtered haware hempty hunbroken hfeed hkind hscope
  refine ⟨hfiltered, fun before w hprefix hw hbefore hafter hupdated hactive hprev => ?_⟩
  obtain ⟨since, rfl⟩ := hprefix
  obtain ⟨prev, hlatest⟩ := hprev
  refine hfiltered.dropped fun hsubmits => ?_
  have hdiffers := (hfiltered.update hupdated hactive).mp hsubmits prev hlatest
  have hshown := Cluster.replay_append_of_shown earlier _ _ _
    ((Cluster.get?_replay_iff _ _ _).mpr ⟨prev, hlatest, rfl⟩)
  rw [List.append_assoc] at hfew
  have hbound := Nat.lt_of_le_of_lt (Cluster.writes_ofHistory_le before ([w] ++ since)) hfew
  have hsame := Cluster.spec_of_silent_write before
    (fun w' hw' => hws w' (by simp [hw'])) hbound w hw e hupdated (hbefore ▸ hafter)
    prev.object (hbefore ▸ hshown)
  exact Bool.false_ne_true (hdiffers.symm.trans hsame)

/-- An object is made, its status is reported, and its spec is edited. -/
def edits : List ClusterWrite :=
  [.create sample, .patch sample.id ⟨1⟩ (.setStatus (.bool true)), .editSpec sample.id (.bool true)]

def madeEvent : ChangeEvent := ⟨.added, { sample with version := ⟨1⟩, generation := 1 }⟩

def statusEvent : ChangeEvent :=
  ⟨.updated, { madeEvent.object with status := some (.bool true), version := ⟨2⟩ }⟩

def specEvent : ChangeEvent :=
  ⟨.updated, { statusEvent.object with spec := .bool true, version := ⟨3⟩, generation := 2 }⟩

/-- The report of the status is left out, the edit of the spec is not. -/
theorem updates_filtered_edits :
    ∃ t u, Trace (fresh sampleSettings {}) [.handle {} madeEvent] t ∧
      t.controller.Drops statusEvent ∧
      Trace (fresh sampleSettings {}) [.handle {} madeEvent, .handle {} statusEvent] u ∧
      u.controller.Submits specEvent := by
  have hreflexive : ∀ w ∈ edits, w.ReflexiveSpec :=
    List.forall_mem_cons.mpr ⟨rfl, List.forall_mem_cons.mpr ⟨nofun,
      List.forall_mem_cons.mpr ⟨rfl, nofun⟩⟩⟩
  have hfew : (Cluster.ofHistory edits).writeCount < UInt64.size := by decide
  have hmade := trace_handleEvents (fresh sampleSettings {}) {} [madeEvent]
  have hboth := trace_handleEvents (fresh sampleSettings {}) {} [madeEvent, statusEvent]
  obtain ⟨_, hsilent⟩ := hmade.updates_filtered rfl rfl edits hreflexive hfew [] [specEvent]
    statusEvent rfl rfl rfl
  obtain ⟨hfiltered, _⟩ := hboth.updates_filtered rfl rfl edits hreflexive hfew [] []
    specEvent rfl rfl rfl
  refine ⟨_, _, hmade, ?_, hboth, ?_⟩
  · exact hsilent [.create sample] (.patch sample.id ⟨1⟩ (.setStatus (.bool true)))
      ⟨[.editSpec sample.id (.bool true)], rfl⟩ rfl rfl rfl rfl rfl
      ⟨madeEvent, [], [], rfl, rfl, nofun, nofun⟩
  · refine (hfiltered.update rfl rfl).mpr fun prev hlatest => ?_
    have hshown := (Cluster.get?_replay_iff _ _ _).mpr ⟨prev, hlatest, rfl⟩
    rw [← Option.some.inj hshown]
    rfl

end Supervision
end Reconciliation
