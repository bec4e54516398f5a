import Reconciliation.Proofs.Scheduler.Activity

/-!
Steps of a scheduler at work, computed. A list of moves is replayed by running the operations of
the scheduler one after another, so that single runs can be tried out. The ends of dispatches
that have crashed are not computed.
-/
namespace Reconciliation.Activity

/-- The loop takes the next identity from the ready queue, and begins a dispatch or finds the
entry stale. -/
def take? (a : Activity) (id : ResourceId) :
    Option (Option (ReconciliationRequest × Option RetryInfo) × Activity) :=
  match a.loop, a.scheduler.ready with
  | .waiting true, next :: rest =>
    if next = id then
      match ({ a.scheduler with ready := rest }).begin? id with
      | some (taken, s) =>
        some (some taken,
          { a with scheduler := s, loop := .waiting false, inFlight := id :: a.inFlight })
      | none =>
        some (none,
          { a with
            scheduler := { a.scheduler with ready := rest }
            loop := .waiting false
            freeWorkers := a.freeWorkers + 1 })
    else none
  | _, _ => none

def step? (a : Activity) : Move → Option Activity
  | .submit id cause terminating =>
    some { a with scheduler := a.scheduler.trigger id cause terminating }
  | .reschedule id delay => some { a with scheduler := a.scheduler.reschedule id delay }
  | .fire t =>
    if t ∈ a.scheduler.armed then some { a with scheduler := a.scheduler.timerFired t } else none
  | .run =>
    match a.scheduler.run with
    | .ok s => some { a with scheduler := s, loop := .waiting false }
    | .error _ => some a
  | .stop => some { a with scheduler := a.scheduler.stop }
  | .takeWorker =>
    match a.loop, a.freeWorkers with
    | .waiting false, n + 1 => some { a with loop := .waiting true, freeWorkers := n }
    | _, _ => none
  | .begin request retry =>
    match a.take? request.id with
    | some (some taken, b) => if taken = (request, retry) then some b else none
    | _ => none
  | .discard id =>
    match a.take? id with
    | some (none, b) => some b
    | _ => none
  | .crash id =>
    if id ∈ a.inFlight ∧ id ∉ a.crashed then
      some { a with scheduler := a.scheduler.crashed, crashed := id :: a.crashed }
    else none
  | .finish id summary =>
    if id ∈ a.inFlight ∧ id ∉ a.crashed then
      some { a with
        scheduler := a.scheduler.finished id summary
        inFlight := a.inFlight.erase id
        crashed := a.crashed.erase id
        freeWorkers := a.freeWorkers + 1 }
    else none
  | .leave =>
    match a.loop with
    | .waiting _ =>
      if a.scheduler.stopRequested then
        some { a with loop := .draining, freeWorkers := a.freeWorkers + a.held }
      else none
    | _ => none
  | .conclude =>
    if a.loop = .draining ∧ a.inFlight = [] then
      some { a with scheduler := a.scheduler.ended, loop := .absent }
    else none

def replay? (a : Activity) : List Move → Option Activity
  | [] => some a
  | m :: ms => (a.step? m).bind fun b => b.replay? ms

/-- What the loop takes, it begins or discards. -/
theorem take?_eq_some (a b : Activity) (id : ResourceId)
    (taken : Option (ReconciliationRequest × Option RetryInfo))
    (h : a.take? id = some (taken, b)) :
    Step a (match taken with
      | some (request, retry) => .begin request retry
      | none => .discard id) b := by
  unfold take? at h
  split at h
  · rename_i next rest hl hr
    split at h
    · rename_i heq
      subst heq
      split at h
      · rename_i begun s hb
        cases h
        exact .begin a next rest begun.1 begun.2 s hl hr hb
      · rename_i hb
        cases h
        exact .discard a next rest hl hr hb
    · cases h
  · cases h

/-- The scheduler is started, or it is running and refuses to start again. -/
theorem run_sound (a b : Activity) (h : a.step? .run = some b) : Step a .run b := by
  simp only [step?] at h
  split at h
  · rename_i s hs
    cases h
    exact .run a s hs
  · rename_i e hs
    cases h
    exact .refuse a e hs

theorem takeWorker_sound (a b : Activity) (h : a.step? .takeWorker = some b) :
    Step a .takeWorker b := by
  simp only [step?] at h
  split at h
  · rename_i n hl hw
    cases h
    exact .takeWorker a n hl hw
  · cases h

/-- The request and the retry information of a replayed dispatch are those which the loop hands
out. -/
theorem begin_sound (a b : Activity) (request : ReconciliationRequest) (retry : Option RetryInfo)
    (h : a.step? (.begin request retry) = some b) : Step a (.begin request retry) b := by
  simp only [step?] at h
  split at h
  · rename_i taken b' htake
    obtain ⟨rfl, hb⟩ := Option.ite_none_right_eq_some.mp h
    obtain rfl := Option.some.inj hb
    exact take?_eq_some a b' request.id _ htake
  · cases h

theorem discard_sound (a b : Activity) (id : ResourceId) (h : a.step? (.discard id) = some b) :
    Step a (.discard id) b := by
  simp only [step?] at h
  split at h
  · rename_i b' htake
    obtain rfl := Option.some.inj h
    exact take?_eq_some a b' id none htake
  · cases h

theorem leave_sound (a b : Activity) (h : a.step? .leave = some b) : Step a .leave b := by
  simp only [step?] at h
  split at h
  · rename_i holds hl
    obtain ⟨hs, hb⟩ := Option.ite_none_right_eq_some.mp h
    obtain rfl := Option.some.inj hb
    exact .leave a holds hl hs
  · cases h

/-- What is computed for a move is a step that this move can take. -/
theorem step?_sound (a b : Activity) (m : Move) (h : a.step? m = some b) : Step a m b := by
  cases m with
  | submit id cause terminating =>
    obtain rfl := Option.some.inj h
    exact .submit a id cause terminating
  | reschedule id delay =>
    obtain rfl := Option.some.inj h
    exact .reschedule a id delay
  | fire t =>
    obtain ⟨ht, hb⟩ := Option.ite_none_right_eq_some.mp h
    obtain rfl := Option.some.inj hb
    exact .fire a t ht
  | run => exact run_sound a b h
  | stop =>
    obtain rfl := Option.some.inj h
    exact .stop a
  | takeWorker => exact takeWorker_sound a b h
  | begin request retry => exact begin_sound a b request retry h
  | discard id => exact discard_sound a b id h
  | crash id =>
    obtain ⟨hc, hb⟩ := Option.ite_none_right_eq_some.mp h
    obtain rfl := Option.some.inj hb
    exact .crash a id hc.1 hc.2
  | finish id summary =>
    obtain ⟨hc, hb⟩ := Option.ite_none_right_eq_some.mp h
    obtain rfl := Option.some.inj hb
    exact .finish a id summary hc.1 fun hmem => absurd hmem hc.2
  | leave => exact leave_sound a b h
  | conclude =>
    obtain ⟨hc, hb⟩ := Option.ite_none_right_eq_some.mp h
    obtain rfl := Option.some.inj hb
    exact .conclude a hc.1 hc.2

/-- What is replayed can happen. -/
theorem replay?_sound (a b : Activity) (ms : List Move) (h : a.replay? ms = some b) :
    Trace a ms b := by
  induction ms generalizing a with
  | nil =>
    obtain rfl := Option.some.inj h
    exact .nil _
  | cons m rest ih =>
    obtain ⟨next, hstep, hrest⟩ := Option.bind_eq_some_iff.mp h
    exact .cons (step?_sound a next m hstep) (ih next hrest)

end Reconciliation.Activity
