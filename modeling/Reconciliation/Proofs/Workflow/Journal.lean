import Mathlib.Logic.Relation
import Reconciliation.Proofs.Workflow.Drive
import Reconciliation.Proofs.Workflow.Notices

/-!
Journals of walks. A journal says which nodes have started and finished and what they have given
notice of, in order. Each event is permitted by those before it: a node starts once, below nodes
whose outcomes let it start, and as long as there is room; what it gives notice of stands between
its start and its end.
-/
namespace Reconciliation

open Relation

namespace Walk

/-- What happens in a walk. -/
inductive Event where
  | started (i : Nat)
  | noticed (i : Nat) (n : Node.Notice)
  | finished (i : Nat) (o : NodeOutcome)

namespace Event

def start? : Event → Option Nat
  | started i => some i
  | _ => none

def notice? (i : Nat) : Event → Option Node.Notice
  | noticed j n => if j = i then some n else none
  | _ => none

def finish? : Event → Option (Nat × NodeOutcome)
  | finished i o => some (i, o)
  | _ => none

end Event

/-- An event happens once at most. -/
def Once (journal : List Event) (e : Event) : Prop :=
  ∀ before after, journal = before ++ e :: after → e ∉ before ∧ e ∉ after

theorem once_of_fresh {journal : List Event} {e : Event}
    (hfresh : ∀ before after, journal = before ++ e :: after → e ∉ before) : Once journal e := by
  intro before after heq
  refine ⟨hfresh before after heq, fun hafter => ?_⟩
  obtain ⟨first, last, hsplit⟩ := List.append_of_mem hafter
  refine hfresh (before ++ e :: first) last ?_ (List.mem_append_right _ List.mem_cons_self)
  rw [heq, hsplit, List.append_assoc, List.cons_append]

/-- The nodes that have started, in order. -/
def starts (journal : List Event) : List Nat := journal.filterMap Event.start?

/-- The nodes that have finished with their outcomes, in order. -/
def finishes (journal : List Event) : List (Nat × NodeOutcome) :=
  journal.filterMap Event.finish?

/-- What a node has given notice of, in order. -/
def noticesOf (i : Nat) (journal : List Event) : List Node.Notice :=
  journal.filterMap (Event.notice? i)

section
variable (journal more : List Event) (i j : Nat) (o : NodeOutcome) (n : Node.Notice)
  (news : List Node.Notice)

@[simp] theorem starts_append : starts (journal ++ more) = starts journal ++ starts more :=
  List.filterMap_append

@[simp] theorem finishes_append :
    finishes (journal ++ more) = finishes journal ++ finishes more := List.filterMap_append

@[simp] theorem noticesOf_append :
    noticesOf i (journal ++ more) = noticesOf i journal ++ noticesOf i more :=
  List.filterMap_append

@[simp] theorem mem_starts : i ∈ starts journal ↔ .started i ∈ journal := by
  unfold starts
  rw [List.mem_filterMap]
  constructor
  · rintro ⟨e, he, hi⟩
    cases e <;> cases hi
    exact he
  · exact fun h => ⟨_, h, rfl⟩

@[simp] theorem mem_finishes : (i, o) ∈ finishes journal ↔ .finished i o ∈ journal := by
  unfold finishes
  rw [List.mem_filterMap]
  constructor
  · rintro ⟨e, he, hi⟩
    cases e <;> cases hi
    exact he
  · exact fun h => ⟨_, h, rfl⟩

@[simp] theorem mem_noticesOf : n ∈ noticesOf i journal ↔ .noticed i n ∈ journal := by
  unfold noticesOf
  rw [List.mem_filterMap]
  constructor
  · rintro ⟨e, he, hn⟩
    cases e with
    | noticed j m =>
      obtain ⟨rfl, hm⟩ := Option.ite_none_right_eq_some.mp hn
      rwa [← Option.some.inj hm]
    | started j => cases hn
    | finished j o => cases hn
  · exact fun h => ⟨_, h, if_pos rfl⟩

@[simp] theorem starts_news : starts (news.map (.noticed i)) = [] := by
  simp [starts, Event.start?]

@[simp] theorem finishes_news : finishes (news.map (.noticed i)) = [] := by
  simp [finishes, Event.finish?]

theorem noticesOf_news : noticesOf i (news.map (.noticed i)) = news := by
  simp [noticesOf, Event.notice?, Function.comp_def]

theorem noticesOf_news_of_ne (h : j ≠ i) : noticesOf i (news.map (.noticed j)) = [] := by
  simp [noticesOf, Event.notice?, h]

@[simp] theorem starts_started : starts (.started i :: more) = i :: starts more := rfl

@[simp] theorem finishes_started : finishes (.started i :: more) = finishes more := rfl

@[simp] theorem noticesOf_started : noticesOf i (.started j :: more) = noticesOf i more := rfl

@[simp] theorem starts_finished : starts [.finished i o] = [] := rfl

@[simp] theorem finishes_finished : finishes [.finished i o] = [(i, o)] := rfl

@[simp] theorem noticesOf_finished : noticesOf i [.finished j o] = [] := rfl

end

variable {I : Interface}

/-- The notices that the visit of a node may give after those before it. -/
def Licence (w : Walk I) (primary : ManagedObject) (ctx : Context) (i : Nat)
    (past : List Node.Notice) (n : Node.Notice) : Prop :=
  ∃ node, w.workflow.nodeAt? i = some node ∧ node.node.Licence primary ctx w.mode past n

/-- The events that may follow those before them. -/
inductive Permits (w : Walk I) (primary : ManagedObject) (ctx : Context) (before : List Event) :
    Event → Prop
  | started (i : Nat) (hi : i < w.workflow.nodes.length) (hscope : w.scope i = true)
      (hnew : .started i ∉ before)
      (hup : ∀ p ∈ w.upstream i, ∃ o, w.lets o = true ∧ .finished p o ∈ before)
      (hroom : (starts before).length < (finishes before).length + w.workflow.maxConcurrency) :
      Permits w primary ctx before (.started i)
  | noticed (i : Nat) (n : Node.Notice) (hstarted : .started i ∈ before)
      (hgoing : ∀ o, .finished i o ∉ before)
      (hlicence : w.Licence primary ctx i (noticesOf i before) n) :
      Permits w primary ctx before (.noticed i n)
  | finished (i : Nat) (o : NodeOutcome) (hstarted : .started i ∈ before)
      (hgoing : ∀ o, .finished i o ∉ before) (hfits : Node.Fits w.mode (noticesOf i before) o) :
      Permits w primary ctx before (.finished i o)

section
variable {w : Walk I} {primary : ManagedObject} {ctx : Context} {journal : List Event}
  (h : Warranted (w.Permits primary ctx) [] journal)
include h

theorem permits_of_split {before after : List Event} {e : Event}
    (heq : journal = before ++ e :: after) : w.Permits primary ctx before e := by
  subst heq
  exact h.at_split [] before e after

/-- More room is never taken than there is. -/
theorem starts_bounded (before after : List Event) (heq : journal = before ++ after) :
    (starts before).length ≤ (finishes before).length + w.workflow.maxConcurrency := by
  induction before using List.reverseRecOn generalizing after with
  | nil => exact Nat.zero_le _
  | append_singleton before e ih =>
    rw [List.append_assoc] at heq
    have hbefore := ih _ heq
    cases permits_of_split h heq with
    | started i _ _ _ _ hroom =>
      rw [starts_append, finishes_append, List.length_append, List.length_append]
      change (starts before).length + 1 ≤ (finishes before).length + 0 + _
      omega
    | noticed i n =>
      rw [starts_append, finishes_append, List.length_append, List.length_append]
      change (starts before).length + 0 ≤ (finishes before).length + 0 + _
      omega
    | finished i o =>
      rw [starts_append, finishes_append, List.length_append, List.length_append]
      change (starts before).length + 0 ≤ (finishes before).length + 1 + _
      omega

theorem started_of_noticed {i : Nat} {n : Node.Notice} (hn : .noticed i n ∈ journal) :
    .started i ∈ journal := by
  obtain ⟨before, after, heq⟩ := List.append_of_mem hn
  cases permits_of_split h heq with
  | noticed _ _ hstarted => exact heq ▸ List.mem_append_left _ hstarted

theorem started_of_finished {i : Nat} {o : NodeOutcome} (ho : .finished i o ∈ journal) :
    .started i ∈ journal := by
  obtain ⟨before, after, heq⟩ := List.append_of_mem ho
  cases permits_of_split h heq with
  | finished _ _ hstarted => exact heq ▸ List.mem_append_left _ hstarted

/-- What the start of a node needs stands before the start. -/
theorem permits_start {i : Nat} (hi : .started i ∈ journal) :
    ∃ before after, journal = before ++ .started i :: after ∧
      w.Permits primary ctx before (.started i) := by
  obtain ⟨before, after, heq⟩ := List.append_of_mem hi
  exact ⟨before, after, heq, permits_of_split h heq⟩

theorem scope_of_started {i : Nat} (hi : .started i ∈ journal) :
    i < w.workflow.nodes.length ∧ w.scope i = true := by
  obtain ⟨before, after, _, hpermits⟩ := permits_start h hi
  cases hpermits with
  | started _ hlt hscope => exact ⟨hlt, hscope⟩

/-- A prefix of a journal is one. -/
theorem warranted_before {before after : List Event} (heq : journal = before ++ after) :
    Warranted (w.Permits primary ctx) [] before := by
  subst heq
  exact h.of_append

/-- Nothing is noticed of a node that has finished. -/
theorem noticesOf_after {before after : List Event} {i : Nat} {o : NodeOutcome}
    (heq : journal = before ++ .finished i o :: after) :
    noticesOf i journal = noticesOf i before := by
  have hsilent : noticesOf i after = [] := by
    refine List.eq_nil_iff_forall_not_mem.mpr fun n hn => ?_
    obtain ⟨first, last, hsplit⟩ := List.append_of_mem ((mem_noticesOf _ _ _).mp hn)
    have hlater : journal = (before ++ .finished i o :: first) ++ .noticed i n :: last := by
      rw [heq, hsplit, List.append_assoc, List.cons_append]
    cases permits_of_split h hlater with
    | noticed _ _ _ hgoing =>
      exact hgoing o (List.mem_append_right _ List.mem_cons_self)
  rw [heq, noticesOf_append]
  change _ ++ noticesOf i after = _
  rw [hsilent, List.append_nil]

theorem fits_of_finished {i : Nat} {o : NodeOutcome} (ho : .finished i o ∈ journal) :
    Node.Fits w.mode (noticesOf i journal) o := by
  obtain ⟨before, after, heq⟩ := List.append_of_mem ho
  rw [noticesOf_after h heq]
  cases permits_of_split h heq with
  | finished _ _ _ _ hfits => exact hfits

/-- A node finishes with one outcome. -/
theorem finished_unique {i : Nat} {o o' : NodeOutcome} (ho : .finished i o ∈ journal)
    (ho' : .finished i o' ∈ journal) : o = o' := by
  obtain ⟨before, after, heq⟩ := List.append_of_mem ho
  rw [heq, List.mem_append, List.mem_cons] at ho'
  rcases ho' with hbefore | hsame | hafter
  · cases permits_of_split h heq with
    | finished _ _ _ hgoing => exact absurd hbefore (hgoing o')
  · exact (Event.finished.inj hsame).2.symm
  · obtain ⟨first, last, hsplit⟩ := List.append_of_mem hafter
    have hlater : journal = (before ++ .finished i o :: first) ++ .finished i o' :: last := by
      rw [heq, hsplit, List.append_assoc, List.cons_append]
    cases permits_of_split h hlater with
    | finished _ _ _ hgoing =>
      exact absurd (List.mem_append_right _ List.mem_cons_self) (hgoing o)

/-- A node is asked for each of its parts once at most. -/
theorem asked_once (i : Nat) (part : Node.Part) : Once journal (.noticed i (.asked part)) := by
  refine once_of_fresh fun before after heq hold => ?_
  cases permits_of_split h heq with
  | noticed _ _ _ _ hlicence =>
    obtain ⟨node, _, hlicence⟩ := hlicence
    cases hlicence with
    | asked _ _ _ _ hnew => exact hnew ((mem_noticesOf _ _ _).mpr hold)

theorem started_once (i : Nat) : Once journal (.started i) := by
  refine once_of_fresh fun before after heq => ?_
  cases permits_of_split h heq with
  | started _ _ _ hnew => exact hnew

/-- What the visit of a node asks for, it asks for with the conditions for it found to hold. -/
theorem holds_of_asked {before after : List Event} {i : Nat} {part : Node.Part}
    (heq : journal = before ++ .noticed i (.asked part) :: after) :
    ∃ node gates, w.workflow.nodeAt? i = some node ∧ w.mode.gates part = some gates ∧
      ∀ kind ∈ gates, node.node.Holds primary ctx (noticesOf i before) kind := by
  cases permits_of_split h heq with
  | noticed _ _ _ _ hlicence =>
    obtain ⟨node, hnode, hlicence⟩ := hlicence
    cases hlicence with
    | asked _ gates hgates hheld => exact ⟨node, gates, hnode, hgates, hheld⟩

/-- A visit only asks for what belongs to its mode. -/
theorem gates_of_asked {i : Nat} {part : Node.Part} (hn : .noticed i (.asked part) ∈ journal) :
    ∃ gates, w.mode.gates part = some gates := by
  obtain ⟨before, after, heq⟩ := List.append_of_mem hn
  obtain ⟨_, gates, _, hgates, _⟩ := holds_of_asked h heq
  exact ⟨gates, hgates⟩

theorem asked_of_answered {i : Nat} {kind : ConditionKind} {a : Except Error Bool}
    (hn : .noticed i (.answered kind a) ∈ journal) :
    .noticed i (.asked (.check kind)) ∈ journal := by
  obtain ⟨before, after, heq⟩ := List.append_of_mem hn
  cases permits_of_split h heq with
  | noticed _ _ _ _ hlicence =>
    obtain ⟨_, _, hlicence⟩ := hlicence
    cases hlicence with
    | answered _ _ hasked =>
      rw [heq]
      exact List.mem_append_left _ ((mem_noticesOf _ _ _).mp hasked)

/-- When a node gives notice of anything, the nodes that it waits for have let it start. -/
theorem finished_upstream {before after : List Event} {i : Nat} {n : Node.Notice}
    (heq : journal = before ++ .noticed i n :: after) :
    ∀ p ∈ w.upstream i, ∃ o, w.lets o = true ∧ .finished p o ∈ before := by
  intro p hp
  cases permits_of_split h heq with
  | noticed _ _ hstarted =>
    obtain ⟨first, last, hsplit, hpermits⟩ := permits_start (warranted_before h heq) hstarted
    cases hpermits with
    | started _ _ _ _ hup =>
      obtain ⟨o, hlets, ho⟩ := hup p hp
      rw [hsplit]
      exact ⟨o, hlets, List.mem_append_left _ ho⟩

/-- Above a node that has started, every node had finished and let it start. -/
theorem finished_above {p i : Nat} (hbelow : TransGen (fun p i => p ∈ w.upstream i) p i)
    (before after : List Event) (heq : journal = before ++ .started i :: after) :
    ∃ o, w.lets o = true ∧ .finished p o ∈ before := by
  induction hbelow generalizing before after with
  | single hp =>
    cases permits_of_split h heq with
    | started _ _ _ _ hup => exact hup p hp
  | @tail q i _ hlast ih =>
    cases permits_of_split h heq with
    | started _ _ _ _ hup =>
      obtain ⟨o, _, ho⟩ := hup q hlast
      obtain ⟨first, last, hsplit⟩ := List.append_of_mem
        (started_of_finished (warranted_before h heq) ho)
      obtain ⟨o', hlets, ho'⟩ := ih first (last ++ .started i :: after) (by
        rw [heq, hsplit, List.append_assoc, List.cons_append])
      exact ⟨o', hlets, by rw [hsplit]; exact List.mem_append_left _ ho'⟩

end
end Walk
end Reconciliation
