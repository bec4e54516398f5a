import Reconciliation.Proofs.Scheduler.Order

/-!
What the loop over the ready queue does to the scheduler. A call of the loop hands out every
event that waits; taking an identity from the queue uses up one entry, and begins a dispatch
only if the state is still marked as queued; the end of the loop cancels the timers. All of it
keeps the scheduler orderly.
-/
namespace Reconciliation

/-- The state of an identity once a scheduler that runs has looked for waiting events. -/
def IdentityState.promoted (st : IdentityState) : IdentityState :=
  if st.isDispatchable then { st with queued := true } else st

namespace IdentityState
variable (st : IdentityState)

theorem event_promoted : st.promoted.event = st.event := by
  unfold promoted
  split <;> rfl

theorem inFlight_promoted : st.promoted.inFlight = st.inFlight := by
  unfold promoted
  split <;> rfl

theorem causes_promoted : st.promoted.causes = st.causes := by
  unfold promoted
  split <;> rfl

theorem timer_promoted : st.promoted.timer = st.timer := by
  unfold promoted
  split <;> rfl

end IdentityState

/-- A dispatch takes the event that it was due for. -/
theorem IdentityState.event_begun (st : IdentityState) (he : st.event = .pending) :
    st.begun.event = .quiet := by
  simp [begun, hasEvent, he]

namespace Scheduler

def offer (s : Scheduler) (e : ResourceId × IdentityState) : Scheduler :=
  if e.2.isDispatchable then s.enqueue e.1 e.2 else s

theorem enqueuePending_eq (s : Scheduler) :
    s.enqueuePending = s.states.entries.foldl offer s := rfl

theorem offer_of_dispatchable (s : Scheduler) (e : ResourceId × IdentityState)
    (hd : e.2.isDispatchable = true) : s.offer e = s.enqueue e.1 e.2 := by
  simp only [offer, hd, if_true]

@[simp] theorem running_offer (s : Scheduler) (e : ResourceId × IdentityState) :
    (s.offer e).running = s.running := by
  unfold offer
  split
  · exact running_carryOut s e.1 (.enqueue e.2)
  · rfl

theorem running_foldl_offer (l : List (ResourceId × IdentityState)) (s : Scheduler) :
    (l.foldl offer s).running = s.running := by
  induction l generalizing s with
  | nil => rfl
  | cons e rest ih => rw [List.foldl_cons, ih (s.offer e), running_offer]

theorem mem_ready_offer (s : Scheduler) (e : ResourceId × IdentityState) (k : ResourceId)
    (hk : k ∈ s.ready) : k ∈ (s.offer e).ready := by
  unfold offer
  split
  · exact mem_ready_carryOut s e.1 k (.enqueue e.2) hk
  · exact hk

theorem offered_of_dispatchable (s : Scheduler) (hr : s.running = true) (st : IdentityState)
    (hd : st.isDispatchable = true) : s.offered st = { st with queued := true } := by
  simp only [IdentityState.isDispatchable, Bool.and_eq_true, Bool.not_eq_true'] at hd
  simp [offered, hr, hd.1.2, hd.2]

theorem stateOf?_offer (s : Scheduler) (hr : s.running = true)
    (e : ResourceId × IdentityState) (he : s.stateOf? e.1 = some e.2) (k : ResourceId) :
    (s.offer e).stateOf? k = if k = e.1 then some e.2.promoted else s.stateOf? k := by
  unfold offer IdentityState.promoted
  by_cases hd : e.2.isDispatchable = true
  · simp only [hd, if_true]
    rw [stateOf?_enqueue, offered_of_dispatchable s hr e.2 hd]
  · simp only [hd, if_false, Bool.false_eq_true]
    split
    · rename_i hk
      rw [hk, he]
    · rfl

/-- Offering identities one after another promotes the state of each of them once. -/
theorem stateOf?_foldl_offer (l : List (ResourceId × IdentityState)) (s : Scheduler)
    (hr : s.running = true) (hl : (l.map (·.1)).Nodup)
    (hs : ∀ e ∈ l, s.stateOf? e.1 = some e.2) (k : ResourceId) :
    (l.foldl offer s).stateOf? k =
      if k ∈ l.map (·.1) then (s.stateOf? k).map IdentityState.promoted
      else s.stateOf? k := by
  induction l generalizing s with
  | nil => simp
  | cons e rest ih =>
    rw [List.map_cons, List.nodup_cons] at hl
    have he : s.stateOf? e.1 = some e.2 := hs e (List.mem_cons_self ..)
    have hafter := stateOf?_offer s hr e he
    have hrest : ∀ e' ∈ rest, (s.offer e).stateOf? e'.1 = some e'.2 := by
      intro e' he'
      have hne : e'.1 ≠ e.1 := by
        intro h
        exact hl.1 (h ▸ List.mem_map_of_mem he')
      rw [hafter, if_neg hne]
      exact hs e' (List.mem_cons_of_mem _ he')
    rw [List.foldl_cons, ih (s.offer e) (by rw [running_offer]; exact hr) hl.2 hrest, hafter]
    by_cases hk : k = e.1
    · subst hk
      simp [hl.1, he]
    · simp only [hk, if_false, List.map_cons, List.mem_cons, false_or]

theorem stateOf?_enqueuePending (s : Scheduler) (hr : s.running = true) (k : ResourceId) :
    s.enqueuePending.stateOf? k = (s.stateOf? k).map IdentityState.promoted := by
  have hs : ∀ e ∈ s.states.entries, s.stateOf? e.1 = some e.2 :=
    fun e he => (s.states.get?_eq_some_iff e.1 e.2).mpr he
  rw [enqueuePending_eq, stateOf?_foldl_offer _ s hr s.states.distinct_keys hs]
  split
  · rfl
  · rename_i hk
    cases hst : s.stateOf? k with
    | none => rfl
    | some st =>
      have hmem := (s.states.get?_eq_some_iff k st).mp hst
      exact absurd (List.mem_map_of_mem hmem) hk

theorem mem_ready_foldl_offer (l : List (ResourceId × IdentityState)) (s : Scheduler)
    (k : ResourceId) (hk : k ∈ s.ready) : k ∈ (l.foldl offer s).ready := by
  induction l generalizing s with
  | nil => exact hk
  | cons e rest ih => exact ih (s.offer e) (mem_ready_offer s e k hk)

/-- When the loop starts, every identity that waits for it goes to the ready queue. -/
theorem mem_ready_enqueuePending (s : Scheduler) (hr : s.running = true) (k : ResourceId)
    (st : IdentityState) (hst : s.stateOf? k = some st) (hd : st.isDispatchable = true) :
    k ∈ s.enqueuePending.ready := by
  have hmem : (k, st) ∈ s.states.entries := (s.states.get?_eq_some_iff k st).mp hst
  rw [enqueuePending_eq]
  obtain ⟨before, after, hsplit⟩ := List.append_of_mem hmem
  rw [hsplit, List.foldl_append, List.foldl_cons]
  apply mem_ready_foldl_offer
  have hr' : (before.foldl offer s).running = true := by rw [running_foldl_offer]; exact hr
  have hoffered := offered_of_dispatchable (before.foldl offer s) hr' st hd
  have hunqueued : st.queued ≠ true := by
    simp only [IdentityState.isDispatchable, Bool.and_eq_true, Bool.not_eq_true'] at hd
    rw [hd.2]
    decide
  rw [offer_of_dispatchable _ (k, st) hd]
  exact mem_ready_enqueue _ k st (fun h => absurd h hunqueued) (by rw [hoffered])

/-- The start of the loop makes up for the events that came in while nothing ran. -/
theorem orderly_enqueuePending (s : Scheduler) (hr : s.running = true)
    (hs : ({ s with running := false } : Scheduler).Orderly) : s.enqueuePending.Orderly := by
  intro k st' hst'
  rw [stateOf?_enqueuePending s hr] at hst'
  obtain ⟨st, hst, rfl⟩ := Option.map_eq_some_iff.mp hst'
  have h := hs k st hst
  have hready : k ∈ s.ready → k ∈ s.enqueuePending.ready :=
    mem_ready_foldl_offer s.states.entries s k
  have hin := mem_ready_enqueuePending s hr k st hst
  unfold IdentityState.promoted
  split
  · rename_i hd
    have hin := hin hd
    rw [IdentityState.isDispatchable_iff] at hd
    exact ⟨⟨fun _ => hd.2.1, fun _ => hd.1, h.sound.deleted_inFlight,
      h.sound.released_idle, h.sound.pending_causes⟩, fun _ => hin, fun _ _ => Or.inr rfl⟩
  · rename_i hd
    rw [IdentityState.isDispatchable_iff] at hd
    refine ⟨h.sound, fun hq => hready (h.in_ready hq), fun _ hp => ?_⟩
    cases hf : st.inFlight with
    | true => exact Or.inl rfl
    | false =>
      cases hq : st.queued with
      | true => exact Or.inr rfl
      | false => exact absurd ⟨hp, hf, hq⟩ hd

/-- While a scheduler does not run, nothing is promised about waiting events. -/
theorem Orderly.halted (s s' : Scheduler) (hs : s.Orderly)
    (hstates : s'.states = s.states) (hready : s'.ready = s.ready)
    (hrunning : s'.running = false) : s'.Orderly := by
  intro k st hst
  have hold : s.stateOf? k = some st := by
    simpa only [stateOf?, hstates] using hst
  refine (hs k st hold).mono s s' k st (fun h => hready ▸ h) ?_
  rw [hrunning]
  intro h
  cases h

/-- The loop starts only where no other one serves the ready queue. -/
theorem run_eq_ok (s s' : Scheduler) (h : s.run = .ok s') :
    s.serving = false ∧
      s' = ({ s with serving := true, stopRequested := false, running := true } :
        Scheduler).enqueuePending := by
  unfold run at h
  cases hserving : s.serving with
  | true =>
    rw [hserving, if_pos rfl] at h
    cases h
  | false =>
    rw [hserving, if_neg (by decide)] at h
    cases h
    exact ⟨rfl, rfl⟩

theorem orderly_run (s s' : Scheduler) (hs : s.Orderly) (h : s.run = .ok s') :
    s'.Orderly := by
  obtain ⟨_, rfl⟩ := run_eq_ok s s' h
  exact orderly_enqueuePending _ rfl (hs.halted s _ rfl rfl rfl)

theorem orderly_stop (s : Scheduler) (hs : s.Orderly) : s.stop.Orderly :=
  hs.halted s s.stop rfl rfl rfl

theorem stateOf?_ended (s : Scheduler) (k : ResourceId) :
    s.ended.stateOf? k = (s.stateOf? k).map IdentityState.cancelTimer :=
  SortedMap.get?_map s.states _ k

theorem orderly_ended (s : Scheduler) (hs : s.Orderly) : s.ended.Orderly := by
  intro k st' hst'
  rw [stateOf?_ended] at hst'
  obtain ⟨st, hst, rfl⟩ := Option.map_eq_some_iff.mp hst'
  have h := hs k st hst
  exact ⟨⟨h.sound.queued_idle, h.sound.queued_pending, h.sound.deleted_inFlight,
    h.sound.released_idle, h.sound.pending_causes⟩, h.in_ready, h.prompt⟩

/-- A dispatch begins only for an identity that is marked as queued and idle, and takes all
its causes. -/
theorem begin?_eq_some (s : Scheduler) (id : ResourceId) (request : ReconciliationRequest)
    (retry : Option RetryInfo) (s' : Scheduler)
    (h : s.begin? id = some ((request, retry), s')) :
    ∃ st, s.stateOf? id = some st ∧ st.queued = true ∧ st.inFlight = false ∧
      request = ⟨id, st.causes⟩ ∧ retry = st.retry.map RetryProgress.info ∧
      s' = { s.put id st.begun with stats.dispatched := s.stats.dispatched + 1 } := by
  unfold begin? at h
  cases hst : s.stateOf? id with
  | none =>
    rw [hst] at h
    cases h
  | some st =>
    rw [hst] at h
    dsimp only at h
    split at h
    · rename_i hq
      simp only [Bool.and_eq_true, Bool.not_eq_true'] at hq
      cases h
      exact ⟨st, rfl, hq.1, hq.2, rfl, rfl, rfl⟩
    · cases h

theorem begin?_eq_none (s : Scheduler) (id : ResourceId) (h : s.begin? id = none)
    (st : IdentityState) (hst : s.stateOf? id = some st) (hq : st.queued = true) :
    st.inFlight = true := by
  unfold begin? at h
  rw [hst] at h
  dsimp only at h
  split at h
  · cases h
  · rename_i hno
    simpa [hq] using hno

/-- The state of the identity whose dispatch has begun. -/
theorem sound_begun (st : IdentityState) (hs : st.Sound) (hq : st.queued = true) :
    st.begun.Sound := by
  have hquiet := st.event_begun (hs.queued_pending hq)
  refine ⟨?_, ?_, fun _ => rfl, ?_, ?_⟩
  · intro h
    cases h
  · intro h
    cases h
  · rw [hquiet]
    intro h
    cases h
  · rw [hquiet]
    intro h
    cases h

/-- Taking the next identity from the queue keeps the scheduler orderly. -/
theorem orderly_begin? (s : Scheduler) (hs : s.Orderly) (id : ResourceId)
    (rest : List ResourceId) (hr : s.ready = id :: rest) (request : ReconciliationRequest)
    (retry : Option RetryInfo) (s' : Scheduler)
    (h : ({ s with ready := rest } : Scheduler).begin? id = some ((request, retry), s')) :
    s'.Orderly := by
  obtain ⟨st, hst, hq, _, _, _, rfl⟩ := begin?_eq_some _ id request retry s' h
  intro k st' hst'
  have hst' : (if k = id then some st.begun else s.stateOf? k) = some st' := by
    rw [← hst']
    exact (stateOf?_put _ id k st.begun).symm
  by_cases hk : k = id
  · rw [if_pos hk] at hst'
    obtain rfl := Option.some.inj hst'
    refine ⟨sound_begun st (hs id st hst).sound hq, ?_, fun _ _ => Or.inl rfl⟩
    intro h
    cases h
  · rw [if_neg hk] at hst'
    have hfits := hs k st' hst'
    refine ⟨hfits.sound, fun hqueued => ?_, hfits.prompt⟩
    have hmem := hfits.in_ready hqueued
    rw [hr, List.mem_cons] at hmem
    exact hmem.resolve_left hk

/-- A stale entry of the ready queue is not the only one of a queued identity. -/
theorem orderly_discard (s : Scheduler) (hs : s.Orderly) (id : ResourceId)
    (rest : List ResourceId) (hr : s.ready = id :: rest)
    (h : ({ s with ready := rest } : Scheduler).begin? id = none) :
    ({ s with ready := rest } : Scheduler).Orderly := by
  intro k st hst
  have hfits := hs k st hst
  refine ⟨hfits.sound, fun hq => ?_, hfits.prompt⟩
  have hmem := hfits.in_ready hq
  rw [hr, List.mem_cons] at hmem
  rcases hmem with rfl | hmem
  · have hf := begin?_eq_none _ k h st hst hq
    have hidle := hfits.sound.queued_idle hq
    rw [hf] at hidle
    cases hidle
  · exact hmem

end Scheduler
end Reconciliation
