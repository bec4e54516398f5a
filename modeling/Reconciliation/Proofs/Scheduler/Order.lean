import Reconciliation.Proofs.Scheduler.Activity

/-!
What the scheduler keeps of each identity. In a sound state the event state agrees with where the
identity stands: only an idle identity is queued, and only for an event; an object is marked as
deleted only while a dispatch is in flight, and as released only when none is. The states of an
orderly scheduler are sound, an identity that is marked as queued stands in the ready queue, and
while the scheduler runs no event waits outside the queue. Carrying out a decision keeps that,
provided that the decision stores a sound state and queues only through the ready queue.
-/
namespace Reconciliation

namespace IdentityState

/-- The event state of an identity agrees with where the identity stands. -/
structure Sound (st : IdentityState) : Prop where
  queued_idle : st.queued = true → st.inFlight = false
  queued_pending : st.queued = true → st.event = .pending
  deleted_inFlight : st.event = .deleted → st.inFlight = true
  released_idle : st.event = .released → st.inFlight = false
  pending_causes : st.event = .pending → st.causes ≠ []

theorem sound_fresh : ({} : IdentityState).Sound := by
  constructor <;> intro h <;> cases h

theorem addCause_ne_nil (causes : List TriggerCause) (cause : TriggerCause) :
    addCause causes cause ≠ [] := by
  unfold addCause
  split
  · rename_i h
    rintro rfl
    simp at h
  · simp

theorem hasEvent_iff (st : IdentityState) : st.hasEvent = true ↔ st.event = .pending := by
  simp [hasEvent]

theorem isDeleted_iff (st : IdentityState) : st.isDeleted = true ↔ st.event = .deleted := by
  simp [isDeleted]

theorem acceptsEvents_iff (st : IdentityState) :
    st.acceptsEvents = true ↔ st.event = .quiet ∨ st.event = .pending := by
  simp [acceptsEvents]

theorem isDispatchable_iff (st : IdentityState) :
    st.isDispatchable = true ↔
      st.event = .pending ∧ st.inFlight = false ∧ st.queued = false := by
  simp [isDispatchable, hasEvent, and_assoc]

theorem markEvent_of_accepts (st : IdentityState) (cause : TriggerCause)
    (h : st.acceptsEvents = true) :
    st.markEvent cause =
      { st with event := .pending, causes := addCause st.causes cause } := by
  simp [markEvent, h]

/-- The dispatch of an identity is over and nothing has handed the identity out again. -/
structure Rested (st : IdentityState) : Prop where
  idle : st.inFlight = false
  unqueued : st.queued = false
  pending_causes : st.event = .pending → st.causes ≠ []

theorem Rested.sound (st : IdentityState) (h : st.Rested)
    (hd : st.event ≠ .deleted) : st.Sound where
  queued_idle _ := h.idle
  queued_pending hq := by
    rw [h.unqueued] at hq
    cases hq
  deleted_inFlight he := absurd he hd
  released_idle _ := h.idle
  pending_causes := h.pending_causes

end IdentityState

namespace Scheduler

theorem stateOf?_put (s : Scheduler) (id k : ResourceId) (st : IdentityState) :
    (s.put id st).stateOf? k = if k = id then some st else s.stateOf? k := by
  simp only [stateOf?, put, SortedMap.get?_insert]
  by_cases hk : k = id
  · simp [hk]
  · simp [hk]

theorem stateOf?_drop (s : Scheduler) (id k : ResourceId) :
    (s.drop id).stateOf? k = if k = id then none else s.stateOf? k := by
  simp only [stateOf?, drop, SortedMap.get?_erase]
  by_cases hk : k = id
  · simp [hk]
  · simp [hk]

/-- The state that the ready queue leaves behind when it is offered an identity. -/
def offered (s : Scheduler) (st : IdentityState) : IdentityState :=
  if s.running && !st.queued && !st.inFlight then { st with queued := true } else st

theorem stateOf?_enqueue (s : Scheduler) (id k : ResourceId) (st : IdentityState) :
    (s.enqueue id st).stateOf? k = if k = id then some (s.offered st) else s.stateOf? k := by
  unfold enqueue offered
  split
  · exact stateOf?_put s id k { st with queued := true }
  · exact stateOf?_put s id k st

theorem stateOf?_arm (s : Scheduler) (id k : ResourceId) (st : IdentityState) (delay : Span)
    (cause : TriggerCause) :
    (s.arm id st delay cause).stateOf? k =
      if k = id then some { st with timer := some s.armed.length } else s.stateOf? k :=
  stateOf?_put s id k { st with timer := some s.armed.length }

/-- The state of an identity once a decision on it is carried out. -/
def stored (s : Scheduler) : Decision → Option IdentityState
  | .drop => none
  | .keep st => some st
  | .enqueue st => some (s.offered st)
  | .arm st _ _ => some { st with timer := some s.armed.length }

/-- A decision on one identity leaves the states of all others alone. -/
theorem stateOf?_carryOut (s : Scheduler) (id k : ResourceId) (d : Decision) :
    (s.carryOut id d).stateOf? k = if k = id then s.stored d else s.stateOf? k := by
  cases d with
  | drop => exact stateOf?_drop s id k
  | keep st => exact stateOf?_put s id k st
  | enqueue st => exact stateOf?_enqueue s id k st
  | arm st delay cause => exact stateOf?_arm s id k st delay cause

@[simp] theorem running_carryOut (s : Scheduler) (id : ResourceId) (d : Decision) :
    (s.carryOut id d).running = s.running := by
  cases d with
  | enqueue st =>
    simp only [carryOut, enqueue]
    split <;> rfl
  | _ => rfl

theorem mem_ready_carryOut (s : Scheduler) (id k : ResourceId) (d : Decision)
    (hk : k ∈ s.ready) : k ∈ (s.carryOut id d).ready := by
  cases d with
  | enqueue st =>
    simp only [carryOut, enqueue]
    split
    · exact List.mem_append_left _ hk
    · exact hk
  | _ => exact hk

theorem mem_ready_enqueue (s : Scheduler) (id : ResourceId) (st : IdentityState)
    (hold : st.queued = true → id ∈ s.ready) (hq : (s.offered st).queued = true) :
    id ∈ (s.enqueue id st).ready := by
  unfold enqueue
  unfold offered at hq
  split
  · exact List.mem_append_right _ (List.mem_singleton_self id)
  · rename_i hno
    rw [if_neg hno] at hq
    exact hold hq

/-- How the state of one identity fits the rest of the scheduler. -/
structure Fits (s : Scheduler) (id : ResourceId) (st : IdentityState) : Prop where
  sound : st.Sound
  in_ready : st.queued = true → id ∈ s.ready
  prompt : s.running = true → st.event = .pending → st.inFlight = true ∨ st.queued = true

def Orderly (s : Scheduler) : Prop := ∀ id st, s.stateOf? id = some st → s.Fits id st

end Scheduler

/-- What a decision may store in place of an old state without queueing the identity. -/
structure IdentityState.Succeeds (st : IdentityState) (old : Option IdentityState) : Prop where
  sound : st.Sound
  queued : st.queued = true → ∃ o, old = some o ∧ o.queued = true
  prompt : st.event = .pending → st.inFlight = true ∨ st.queued = true ∨
    ∃ o, old = some o ∧ o.event = .pending ∧ o.inFlight = st.inFlight ∧ o.queued = st.queued

/-- A state without an event may be stored as it is. -/
theorem IdentityState.Succeeds.of_not_pending (st : IdentityState) (old : Option IdentityState)
    (hs : st.Sound) (hp : st.event ≠ .pending) : st.Succeeds old where
  sound := hs
  queued hq := absurd (hs.queued_pending hq) hp
  prompt he := absurd he hp

/-- A decision that keeps a scheduler orderly. Only what has an event is offered to the queue. -/
def Decision.Proper (old : Option IdentityState) : Decision → Prop
  | .drop => True
  | .keep st => st.Succeeds old
  | .enqueue st => st.Sound ∧ st.event = .pending ∧
      (st.queued = true → ∃ o, old = some o ∧ o.queued = true)
  | .arm st _ _ => st.Succeeds old

namespace Scheduler

theorem Fits.mono (s s' : Scheduler) (id : ResourceId) (st : IdentityState)
    (h : s.Fits id st) (hready : id ∈ s.ready → id ∈ s'.ready)
    (hrunning : s'.running = true → s.running = true) : s'.Fits id st where
  sound := h.sound
  in_ready hq := hready (h.in_ready hq)
  prompt hr hp := h.prompt (hrunning hr) hp

theorem fits_succeeding (s : Scheduler) (hs : s.Orderly) (id : ResourceId) (st : IdentityState)
    (h : st.Succeeds (s.stateOf? id)) : s.Fits id st where
  sound := h.sound
  in_ready hq := by
    obtain ⟨o, ho, hoq⟩ := h.queued hq
    exact (hs id o ho).in_ready hoq
  prompt hr hp := by
    rcases h.prompt hp with hf | hq | ⟨o, ho, hop, hof, hoq⟩
    · exact Or.inl hf
    · exact Or.inr hq
    · rw [← hof, ← hoq]
      exact (hs id o ho).prompt hr hop

/-- What the ready queue makes of a proper decision to enqueue fits into the scheduler. -/
theorem fits_offered (s : Scheduler) (hs : s.Orderly) (id : ResourceId) (st : IdentityState)
    (h : (Decision.enqueue st).Proper (s.stateOf? id)) :
    (s.enqueue id st).Fits id (s.offered st) := by
  obtain ⟨hsound, hpending, hqueued⟩ := h
  have hold : st.queued = true → id ∈ s.ready := by
    intro hq
    obtain ⟨o, ho, hoq⟩ := hqueued hq
    exact (hs id o ho).in_ready hoq
  have hin := mem_ready_enqueue s id st hold
  have hrun : (s.enqueue id st).running = s.running :=
    running_carryOut s id (.enqueue st)
  by_cases hfree : (s.running && !st.queued && !st.inFlight) = true
  · simp only [offered, hfree, if_true] at hin ⊢
    simp only [Bool.and_eq_true, Bool.not_eq_true'] at hfree
    refine ⟨⟨?_, ?_, ?_, ?_, ?_⟩, fun _ => hin trivial, ?_⟩
    · exact fun _ => hfree.2
    · exact fun _ => hpending
    · exact hsound.deleted_inFlight
    · exact hsound.released_idle
    · exact hsound.pending_causes
    · exact fun _ _ => Or.inr rfl
  · simp only [offered, hfree, if_false, Bool.false_eq_true] at hin ⊢
    refine ⟨hsound, hin, ?_⟩
    intro hr _
    rw [hrun] at hr
    simp only [hr, Bool.true_and, Bool.and_eq_true, Bool.not_eq_true', not_and,
      Bool.not_eq_false] at hfree
    cases hq : st.queued with
    | true => exact Or.inr rfl
    | false => exact Or.inl (hfree hq)

/-- Carrying out a proper decision keeps a scheduler orderly. -/
theorem orderly_carryOut (s : Scheduler) (hs : s.Orderly) (id : ResourceId) (d : Decision)
    (hd : d.Proper (s.stateOf? id)) : (s.carryOut id d).Orderly := by
  intro k st hst
  have hmono : k ∈ s.ready → k ∈ (s.carryOut id d).ready := mem_ready_carryOut s id k d
  rw [stateOf?_carryOut] at hst
  by_cases hk : k = id
  · subst hk
    rw [if_pos rfl] at hst
    cases d with
    | drop => cases hst
    | keep st' =>
      obtain rfl := Option.some.inj hst
      exact (fits_succeeding s hs k st' hd).mono s _ k st' hmono id
    | enqueue st' =>
      obtain rfl := Option.some.inj hst
      exact fits_offered s hs k st' hd
    | arm st' delay cause =>
      obtain rfl := Option.some.inj hst
      have h := (fits_succeeding s hs k st' hd).mono s (s.arm k st' delay cause) k st' hmono id
      exact ⟨⟨h.sound.queued_idle, h.sound.queued_pending, h.sound.deleted_inFlight,
        h.sound.released_idle, h.sound.pending_causes⟩, h.in_ready, h.prompt⟩
  · rw [if_neg hk] at hst
    exact (hs k st hst).mono s _ k st hmono (by rw [running_carryOut]; exact fun h => h)

theorem orderly_carryOut? (s : Scheduler) (hs : s.Orderly) (id : ResourceId)
    (d? : Option Decision) (hd : ∀ d, d? = some d → d.Proper (s.stateOf? id)) :
    (s.carryOut? id d?).Orderly := by
  cases d? with
  | none => exact hs
  | some d => exact orderly_carryOut s hs id d (hd d rfl)

end Scheduler
end Reconciliation
