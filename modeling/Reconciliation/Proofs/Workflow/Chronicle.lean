import Reconciliation.Proofs.Workflow.Invariant
import Reconciliation.Proofs.Workflow.Journal

/-!
Chronicles of walks. In a walk over nodes that give notice, any waiting node may start as long as
there is room, and any running one may go on at any time; the journal grows with what happens.
Whatever the answers and the schedule are, the journal has only permitted events, and the state of
the walk can be read off it.
-/
namespace Reconciliation

namespace Walk
variable {I : Interface} {σ : Type}

/-- The visits under way, which give notice of what they do. -/
abbrev Announced (I : Interface) :=
  Drive (Task.Progress (I.noticing Node.Notice) Error NodeOutcome)

/-- The work on a node in a walk, with notices. -/
def announced (w : Walk I) (primary : ManagedObject) (ctx : Context) (i : Nat) :
    Task (I.noticing Node.Notice) Error NodeOutcome :=
  match w.workflow.nodeAt? i with
  | some n => n.node.announcing.visit w.mode primary ctx
  | none => .done (.errored .shuttingDown)

theorem narrates_announced (w : Walk I) (primary : ManagedObject) (ctx : Context) (i : Nat) :
    (w.announced primary ctx i).Narrates (w.Licence primary ctx i) (Node.Fits w.mode) []
      (w.visit primary ctx i) := by
  unfold announced visit
  cases hnode : w.workflow.nodeAt? i with
  | some n =>
    exact (n.node.narrates_visit primary ctx w.mode).mono
      fun _ _ hlicence => ⟨n, hnode, hlicence⟩
  | none =>
    refine .done [] _ ⟨?_, fun _ => List.not_mem_nil, fun h => nomatch h⟩
    exact iff_of_false Bool.false_ne_true List.not_mem_nil

/-- What has happened in a walk that began in a state, how far it is, and the state it has come
to. The waiting nodes start in their order; the running ones go on, and finish, in any. -/
inductive Chronicle (w : Walk I) (env : Environment I σ) (primary : ManagedObject)
    (ctx : Context) (s₀ : σ) : List Event → Announced I → σ → Prop
  | begin : Chronicle w env primary ctx s₀ [] w.begin s₀
  | start (journal : List Event) (d : Announced I) (s : σ)
      (h : Chronicle w env primary ctx s₀ journal d s) (i : Nat) (rest : List Nat)
      (hwait : d.waiting = i :: rest) (hroom : w.hasRoom d = true) (now : Nat)
      (p : Task.Progress (I.noticing Node.Notice) Error NodeOutcome) (s' : σ)
      (news : List Node.Notice)
      (hp : (w.announced primary ctx i).advance (env.noticing Node.Notice) now (s, []) =
        (p, s', news)) :
      Chronicle w env primary ctx s₀ (journal ++ .started i :: news.map (.noticed i))
        (d.start i p) s'
  | resume (journal : List Event) (d : Announced I) (s : σ)
      (h : Chronicle w env primary ctx s₀ journal d s) (i : Nat)
      (p : Task.Progress (I.noticing Node.Notice) Error NodeOutcome) (hp : (i, p) ∈ d.running)
      (now : Nat) (q : Task.Progress (I.noticing Node.Notice) Error NodeOutcome) (s' : σ)
      (news : List Node.Notice)
      (hq : p.resume (env.noticing Node.Notice) now (s, []) = (q, s', news)) :
      Chronicle w env primary ctx s₀ (journal ++ news.map (.noticed i)) (d.update i q) s'
  | finish (journal : List Event) (d : Announced I) (s : σ)
      (h : Chronicle w env primary ctx s₀ journal d s) (i : Nat) (o : NodeOutcome)
      (hp : (i, .finished o) ∈ d.running) :
      Chronicle w env primary ctx s₀ (journal ++ [.finished i o]) (w.finish d i o) s

section
variable {τ : Type} (R : Nat → List Node.Notice → τ → Prop) (d : Drive τ) (journal : List Event)
  (h : ∀ e ∈ d.running, R e.1 (noticesOf e.1 journal) e.2)
include h

/-- What relates each running visit to its notices, when a node has started. -/
theorem forall_running_start (i : Nat) (t : τ) (news : List Node.Notice) (ht : R i news t)
    (hnew : ∀ e ∈ d.running, e.1 ≠ i) (hsilent : noticesOf i journal = []) :
    ∀ e ∈ (d.start i t).running,
      R e.1 (noticesOf e.1 (journal ++ .started i :: news.map (.noticed i))) e.2 := by
  intro e he
  rw [noticesOf_append, noticesOf_started]
  rcases List.mem_append.mp he with hold | hlast
  · rw [noticesOf_news_of_ne e.1 i news (hnew e hold).symm, List.append_nil]
    exact h e hold
  · rw [List.mem_singleton.mp hlast, hsilent, List.nil_append, noticesOf_news]
    exact ht

/-- What relates each running visit to its notices, when one of them has gone on. -/
theorem forall_running_resume (i : Nat) (t : τ) (news : List Node.Notice)
    (ht : R i (noticesOf i journal ++ news) t) :
    ∀ e ∈ (d.update i t).running,
      R e.1 (noticesOf e.1 (journal ++ news.map (.noticed i))) e.2 := by
  intro e he
  rw [noticesOf_append]
  rcases d.mem_running_update i t e he with rfl | ⟨hold, hne⟩
  · rw [noticesOf_news]
    exact ht
  · rw [noticesOf_news_of_ne e.1 i news hne.symm, List.append_nil]
    exact h e hold

/-- What relates each running visit to its notices, when one of them has finished. -/
theorem forall_running_finish (w : Walk I) (i : Nat) (o : NodeOutcome) :
    ∀ e ∈ (w.finish d i o).running,
      R e.1 (noticesOf e.1 (journal ++ [.finished i o])) e.2 := by
  intro e he
  rw [noticesOf_append, noticesOf_finished, List.append_nil]
  exact h e (List.mem_filter.mp he).1

end

/-- A running visit tells, after what it has given notice of, of some visit without notices. -/
def Narrated (w : Walk I) (primary : ManagedObject) (ctx : Context) (i : Nat)
    (past : List Node.Notice) (p : Task.Progress (I.noticing Node.Notice) Error NodeOutcome) :
    Prop :=
  ∃ p', p.Narrates (w.Licence primary ctx i) (Node.Fits w.mode) past p'

/-- The journal accounts for the state of the walk, and holds only permitted events. -/
structure Accounts (w : Walk I) (primary : ManagedObject) (ctx : Context) (journal : List Event)
    (d : Announced I) : Prop where
  tidy : ∃ outcome, w.Tidy outcome d
  warranted : Warranted (w.Permits primary ctx) [] journal
  finishes_eq : finishes journal = d.completed
  starts_perm : (starts journal).Perm (d.running.map (·.1) ++ d.completed.map (·.1))
  narrates : ∀ e ∈ d.running, w.Narrated primary ctx e.1 (noticesOf e.1 journal) e.2

section
variable {w : Walk I} {primary : ManagedObject} {ctx : Context} {journal : List Event}
  {d : Announced I}

theorem Accounts.started_iff (h : w.Accounts primary ctx journal d) (i : Nat) :
    .started i ∈ journal ↔ i ∈ d.running.map (·.1) ∨ i ∈ d.completed.map (·.1) := by
  rw [← mem_starts, h.starts_perm.mem_iff, List.mem_append]

theorem Accounts.started_of_running (h : w.Accounts primary ctx journal d) {i : Nat}
    {p : Task.Progress (I.noticing Node.Notice) Error NodeOutcome} (hp : (i, p) ∈ d.running) :
    .started i ∈ journal := by
  rw [h.started_iff]
  exact Or.inl (List.mem_map_of_mem hp)

/-- A waiting node has not started. -/
theorem Accounts.new_of_waiting (h : w.Accounts primary ctx journal d) {i : Nat}
    {rest : List Nat} (hwait : d.waiting = i :: rest) : .started i ∉ journal := by
  obtain ⟨outcome, htidy⟩ := h.tidy
  rw [h.started_iff, ← List.mem_append]
  intro hold
  have hdisjoint := (List.nodup_append.mp htidy.nodup).2.2
  refine hdisjoint i ?_ i hold rfl
  rw [hwait]
  exact List.mem_cons_self

/-- A running node has not finished. -/
theorem Accounts.going_of_running (h : w.Accounts primary ctx journal d) {i : Nat}
    {p : Task.Progress (I.noticing Node.Notice) Error NodeOutcome} (hp : (i, p) ∈ d.running)
    (o : NodeOutcome) : .finished i o ∉ journal := by
  intro ho
  obtain ⟨outcome, htidy⟩ := h.tidy
  rw [← mem_finishes, h.finishes_eq] at ho
  have hdisjoint := (List.nodup_append.mp (List.nodup_append.mp htidy.nodup).2.1).2.2
  exact hdisjoint i (List.mem_map_of_mem hp) i (List.mem_map_of_mem ho) rfl

theorem Accounts.length_starts (h : w.Accounts primary ctx journal d) :
    (starts journal).length = d.running.length + (finishes journal).length := by
  rw [h.starts_perm.length_eq, h.finishes_eq, List.length_append, List.length_map,
    List.length_map]

theorem accounts_begin (w : Walk I) (hw : w.workflow.WellFormed) (primary : ManagedObject)
    (ctx : Context) : w.Accounts primary ctx [] w.begin :=
  ⟨⟨fun _ => default, w.tidy_begin hw _⟩, trivial, rfl, .refl _,
    fun _ h => absurd h List.not_mem_nil⟩

/-- The notices of a running node are permitted if its visit has a licence for them. -/
theorem warranted_news (w : Walk I) (primary : ManagedObject) (ctx : Context) (i : Nat)
    (news : List Node.Notice) (journal : List Event) (hstarted : .started i ∈ journal)
    (hgoing : ∀ o, .finished i o ∉ journal)
    (h : Warranted (w.Licence primary ctx i) (noticesOf i journal) news) :
    Warranted (w.Permits primary ctx) journal (news.map (.noticed i)) := by
  induction news generalizing journal with
  | nil => trivial
  | cons n rest ih =>
    refine ⟨.noticed i n hstarted hgoing h.1, ih _ (List.mem_append_left _ hstarted) ?_ ?_⟩
    · intro o ho
      rcases List.mem_append.mp ho with ho | ho
      · exact hgoing o ho
      · cases List.mem_singleton.mp ho
    · have hrest := h.2
      rwa [← noticesOf_news i [n], ← noticesOf_append] at hrest

/-- What the outcomes so far let start, the journal permits to start. -/
theorem Accounts.permits_started (h : w.Accounts primary ctx journal d) (i : Nat)
    (rest : List Nat) (hwait : d.waiting = i :: rest) (hroom : w.hasRoom d = true) :
    w.Permits primary ctx journal (.started i) := by
  obtain ⟨outcome, htidy⟩ := h.tidy
  have hid : i ∈ d.ids := by
    unfold Drive.ids
    rw [hwait]
    exact List.mem_cons_self
  obtain ⟨hscope, hall⟩ := (w.isEligible_iff _ i).mp (htidy.eligible i hid)
  refine .started i (htidy.ids_lt i hid) hscope (h.new_of_waiting hwait) (fun p hp => ?_) ?_
  · obtain ⟨o, ho, hlets⟩ := (Option.any_eq_true _ _).mp (hall p hp)
    refine ⟨o, hlets, ?_⟩
    rw [← mem_finishes, h.finishes_eq]
    exact Association.mem_of_lookup _ p o ho
  · have hlength := h.length_starts
    unfold hasRoom at hroom
    have hroom := of_decide_eq_true hroom
    omega

/-- A node that has not started has given no notice. -/
theorem Accounts.silent (h : w.Accounts primary ctx journal d) (i : Nat)
    (hnew : .started i ∉ journal) : noticesOf i journal = [] := by
  refine List.eq_nil_iff_forall_not_mem.mpr fun n hn => hnew ?_
  exact started_of_noticed h.warranted ((mem_noticesOf _ _ _).mp hn)

/-- A waiting node starts, and its visit gives the first notices. -/
theorem Accounts.start (h : w.Accounts primary ctx journal d) (i : Nat) (rest : List Nat)
    (hwait : d.waiting = i :: rest) (hroom : w.hasRoom d = true)
    (p : Task.Progress (I.noticing Node.Notice) Error NodeOutcome)
    (p' : Task.Progress I Error NodeOutcome) (news : List Node.Notice)
    (hnews : Warranted (w.Licence primary ctx i) [] news)
    (hp : p.Narrates (w.Licence primary ctx i) (Node.Fits w.mode) news p') :
    w.Accounts primary ctx (journal ++ .started i :: news.map (.noticed i)) (d.start i p) := by
  have hpermits := h.permits_started i rest hwait hroom
  obtain ⟨outcome, htidy⟩ := h.tidy
  have hnew := h.new_of_waiting hwait
  have hsilent := h.silent i hnew
  have hrunning : ∀ e ∈ d.running, e.1 ≠ i := by
    rintro e he rfl
    exact hnew (h.started_of_running he)
  refine ⟨⟨outcome, htidy.start i rest p hwait⟩, ?_, ?_, ?_, ?_⟩
  · refine h.warranted.append _ _ _ ⟨hpermits, ?_⟩
    refine w.warranted_news primary ctx i news _ (List.mem_append_right _ List.mem_cons_self) ?_ ?_
    · intro o ho
      rcases List.mem_append.mp ho with ho | ho
      · exact hnew (started_of_finished h.warranted ho)
      · cases List.mem_singleton.mp ho
    · rw [List.nil_append, noticesOf_append, hsilent]
      exact hnews
  · rw [finishes_append, finishes_started, finishes_news, List.append_nil]
    exact h.finishes_eq
  · rw [starts_append, starts_started, starts_news]
    change (starts journal ++ [i]).Perm ((d.running ++ [(i, p)]).map (·.1) ++ _)
    rw [List.map_append, List.append_assoc]
    exact (List.perm_append_comm.trans (h.starts_perm.cons i)).trans List.perm_middle.symm
  · exact forall_running_start (w.Narrated primary ctx) d journal h.narrates i p news ⟨p', hp⟩
      hrunning hsilent

/-- A visit goes on and gives more notices, which follow on those of the node before. -/
theorem Accounts.resume (h : w.Accounts primary ctx journal d) (i : Nat)
    (p q : Task.Progress (I.noticing Node.Notice) Error NodeOutcome) (hp : (i, p) ∈ d.running)
    (q' : Task.Progress I Error NodeOutcome) (news : List Node.Notice)
    (hnews : Warranted (w.Licence primary ctx i) (noticesOf i journal) news)
    (hq : q.Narrates (w.Licence primary ctx i) (Node.Fits w.mode) (noticesOf i journal ++ news)
      q') : w.Accounts primary ctx (journal ++ news.map (.noticed i)) (d.update i q) := by
  obtain ⟨outcome, htidy⟩ := h.tidy
  refine ⟨⟨outcome, htidy.update i q⟩, ?_, ?_, ?_, ?_⟩
  · exact h.warranted.append _ _ _ (w.warranted_news primary ctx i news journal
      (h.started_of_running hp) (h.going_of_running hp) hnews)
  · rw [finishes_append, finishes_news, List.append_nil]
    exact h.finishes_eq
  · rw [starts_append, starts_news, List.append_nil, Drive.keys_update]
    exact h.starts_perm
  · exact forall_running_resume (w.Narrated primary ctx) d journal h.narrates i q news ⟨q', hq⟩

/-- A visit is over. Its outcome goes with its notices, and the nodes that it lets start are waiting
now. -/
theorem Accounts.finish (hw : w.workflow.WellFormed) (h : w.Accounts primary ctx journal d)
    (i : Nat) (o : NodeOutcome) (hp : (i, .finished o) ∈ d.running) :
    w.Accounts primary ctx (journal ++ [.finished i o]) (w.finish d i o) := by
  obtain ⟨outcome, htidy⟩ := h.tidy
  have hkey : i ∈ d.running.map (·.1) := List.mem_map_of_mem hp
  obtain ⟨p', hnarrates⟩ := h.narrates _ hp
  have hpermits : w.Permits primary ctx journal (.finished i o) :=
    .finished i o (h.started_of_running hp) (h.going_of_running hp) hnarrates.result_fits
  refine ⟨⟨_, htidy.finish_any hw i hkey o⟩, ?_, ?_, ?_, ?_⟩
  · exact h.warranted.append _ _ _ ⟨hpermits, trivial⟩
  · rw [finishes_append, finishes_finished, h.finishes_eq]
    rfl
  · have hcomplete := d.ids_complete_perm i o htidy.nodup hkey
    have hsame : ((d.complete i o).running.map (·.1) ++ (d.complete i o).completed.map (·.1)).Perm
        (d.running.map (·.1) ++ d.completed.map (·.1)) := (List.perm_append_left_iff _).mp hcomplete
    rw [starts_append, starts_finished, List.append_nil]
    exact h.starts_perm.trans hsame.symm
  · exact forall_running_finish (w.Narrated primary ctx) d journal h.narrates w i o

/-- Whatever the answers and the schedule are, the journal accounts for the walk. -/
theorem Chronicle.accounts (hw : w.workflow.WellFormed) {env : Environment I σ} {s₀ s : σ}
    (h : w.Chronicle env primary ctx s₀ journal d s) : w.Accounts primary ctx journal d := by
  induction h with
  | begin => exact accounts_begin w hw primary ctx
  | start journal d s _ i rest hwait hroom now p s' news hp ih =>
    obtain ⟨news', htold⟩ := (w.narrates_announced primary ctx i).advance env now s []
    rw [hp] at htold
    obtain rfl : news = news' := (Prod.mk.inj htold.state).2
    exact ih.start i rest hwait hroom p _ news htold.warranted htold.narrates
  | resume journal d s _ i p hp now q s' news hq ih =>
    obtain ⟨p', hnarrates⟩ := ih.narrates _ hp
    obtain ⟨news', htold⟩ := hnarrates.resume env now s []
    rw [hq] at htold
    obtain rfl : news = news' := (Prod.mk.inj htold.state).2
    exact ih.resume i p q hp _ news htold.warranted htold.narrates
  | finish journal d s _ i o hp ih => exact ih.finish hw i o hp

/-- In a walk that is over, the nodes that have started are those that have finished. -/
theorem Accounts.finished_of_started (h : w.Accounts primary ctx journal d)
    (hover : d.isOver = true) {i : Nat} (hi : .started i ∈ journal) :
    ∃ o, .finished i o ∈ journal := by
  unfold Drive.isOver at hover
  rw [Bool.and_eq_true, List.isEmpty_iff, List.isEmpty_iff] at hover
  rw [h.started_iff, hover.2] at hi
  rcases hi with hi | hi
  · cases hi
  · obtain ⟨e, he, rfl⟩ := List.mem_map.mp hi
    refine ⟨e.2, ?_⟩
    rw [← mem_finishes, h.finishes_eq]
    exact he

/-- A walk that is over has finished every node in its scope that was let start. -/
theorem Accounts.complete (h : w.Accounts primary ctx journal d) (hover : d.isOver = true)
    (i : Nat) (hi : i < w.workflow.nodes.length) (hscope : w.scope i = true)
    (hup : ∀ p ∈ w.upstream i, ∃ o, w.lets o = true ∧ .finished p o ∈ journal) :
    ∃ o, .finished i o ∈ journal := by
  obtain ⟨outcome, htidy⟩ := h.tidy
  have hfinished := htidy.finished hover
  have heligible : w.isEligible d.completed i = true := by
    refine (w.isEligible_iff _ i).mpr ⟨hscope, fun p hp => ?_⟩
    obtain ⟨o, hlets, ho⟩ := hup p hp
    rw [← mem_finishes, h.finishes_eq] at ho
    rw [Association.lookup_of_mem _ hfinished.nodup p o ho]
    exact hlets
  have hlookup := hfinished.lookup i hi
  rw [if_pos heligible] at hlookup
  refine ⟨outcome i, ?_⟩
  rw [← mem_finishes, h.finishes_eq]
  exact Association.mem_of_lookup _ i _ hlookup

/-- The outcome of a node is found where the node has finished with it. -/
theorem Accounts.lookup_eq_some (h : w.Accounts primary ctx journal d) (hover : d.isOver = true)
    (i : Nat) (o : NodeOutcome) : d.completed.lookup i = some o ↔ .finished i o ∈ journal := by
  obtain ⟨outcome, htidy⟩ := h.tidy
  rw [← mem_finishes, h.finishes_eq]
  exact ⟨Association.mem_of_lookup _ i o,
    Association.lookup_of_mem _ (htidy.finished hover).nodup i o⟩

end
end Walk
end Reconciliation
