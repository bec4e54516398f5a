import Reconciliation.Proofs.Workflow.Clearing
import Reconciliation.Proofs.Workflow.Gating

/-!
What a reconcile pass deletes. A precondition that does not hold dooms its node and all nodes
below it; whatever is answered and when, the pass deletes only doomed nodes, from the leaves up,
and reconciles none of what it deletes. Above a doomed node that is still there, the doomed nodes
are left alone.
-/
namespace Reconciliation

theorem NodeOutcome.asDeleted_eq_deleted_iff (o : NodeOutcome) (hdeleted : o.isDeleted = false)
    (operations : Operations) : o.asDeleted = .deleted operations ↔ o = .succeeded operations := by
  cases o <;> simp_all [asDeleted, isDeleted]

namespace Workflow
variable {I : Interface} {σ : Type} {w : Workflow I} {env : Environment I σ}
  {primary : ManagedObject} {ctx : Context} {s₀ s : σ} {stage : Stage}
  {journal removal : List Walk.Event}

/-- The reconcile precondition of the node, or of one above it, was found not to hold. -/
def Doomed (w : Workflow I) (journal : List Walk.Event) (i : Nat) : Prop :=
  ∃ p, .noticed p (.answered .reconcilePrecondition (.ok false)) ∈ journal ∧
    (p = i ∨ w.Below p i)

theorem Doomed.below {i j : Nat} (h : w.Doomed journal i) (hbelow : w.Below i j) :
    w.Doomed journal j := by
  obtain ⟨p, hp, rfl | habove⟩ := h
  · exact ⟨p, hp, Or.inr hbelow⟩
  · exact ⟨p, hp, Or.inr (habove.trans hbelow)⟩

/-- Below a marked node, everything is marked. -/
theorem WellFormed.marked_below (hw : w.WellFormed) (completed : List (Nat × NodeOutcome))
    {i j : Nat} (hbelow : w.Below i j) (hi : (w.marked completed).contains i = true) :
    (w.marked completed).contains j = true := by
  have hstep : ∀ p c, p ∈ w.predecessorsAt c → (w.marked completed).contains p = true →
      (w.marked completed).contains c = true := by
    intro p c hp hmark
    rw [hw.marked_contains completed c (w.lt_of_mem_neighbors (·.predecessors) c p hp)]
    unfold markOf
    rw [List.any_eq_true.mpr ⟨p, hp, hmark⟩, Bool.or_true]
  induction hbelow with
  | single hp => exact hstep _ _ hp hi
  | tail _ hp ih => exact hstep _ _ hp ih

/-- The walk that deletes marked nodes goes up over them. -/
theorem WellFormed.upward_removal (hw : w.WellFormed) (completed : List (Nat × NodeOutcome)) :
    (w.removal (w.marked completed)).Upward :=
  ⟨rfl, fun i hi j hj => hw.marked_below completed (.single ((hw.mutual_iff j i).mpr hj)) hi⟩

section
variable {d : Walk.Announced I} (hw : w.WellFormed)
  (h : (w.walk .reconcile).Accounts primary ctx journal d) (hover : d.isOver = true)
include h hover

/-- A node has finished as one to delete where its own precondition was found not to hold. -/
theorem isDeleted_iff_answered (p : Nat) :
    (d.completed.lookup p).any NodeOutcome.isDeleted = true ↔
      .noticed p (.answered .reconcilePrecondition (.ok false)) ∈ journal := by
  have hfits : ∀ o, .finished p o ∈ journal →
      (o.isDeleted = true ↔ .answered .reconcilePrecondition (.ok false) ∈
        Walk.noticesOf p journal) :=
    fun _ ho => (Walk.fits_of_finished h.warranted ho).deleted_iff
  rw [← Walk.mem_noticesOf, Option.any_eq_true]
  constructor
  · rintro ⟨o, ho, hdeleted⟩
    exact (hfits o ((h.lookup_eq_some hover p o).mp ho)).mp hdeleted
  · intro hanswered
    have hstarted := Walk.started_of_noticed h.warranted ((Walk.mem_noticesOf _ _ _).mp hanswered)
    obtain ⟨o, ho⟩ := h.finished_of_started hover hstarted
    exact ⟨o, (h.lookup_eq_some hover p o).mpr ho, (hfits o ho).mpr hanswered⟩

include hw

/-- The marked nodes are the doomed ones. -/
theorem WellFormed.marked_iff_doomed (i : Nat) (hi : i < w.nodes.length) :
    (w.marked d.completed).contains i = true ↔ w.Doomed journal i := by
  have hfailed := isDeleted_iff_answered h hover
  constructor
  · -- down the order: a marked node is so by itself or through one above it
    refine hw.downward (fun i => (w.marked d.completed).contains i = true → w.Doomed journal i)
      (fun i hi hpred hmark => ?_) i hi
    rw [hw.marked_contains d.completed i hi] at hmark
    rcases (Bool.or_eq_true _ _).mp hmark with hown | habove
    · exact ⟨i, (hfailed i).mp hown, Or.inl rfl⟩
    · obtain ⟨p, hp, hmark⟩ := List.any_eq_true.mp habove
      exact (hpred p hp hmark).below (.single hp)
  · rintro ⟨p, hp, hbelow⟩
    have hlt := (Walk.scope_of_started h.warranted (Walk.started_of_noticed h.warranted hp)).1
    have hmark : (w.marked d.completed).contains p = true := by
      rw [hw.marked_contains d.completed p hlt]
      exact (Bool.or_eq_true _ _).mpr (Or.inl ((hfailed p).mpr hp))
    rcases hbelow with rfl | hbelow
    · exact hmark
    · exact hw.marked_below d.completed hbelow hmark

/-- A node that was reconciled is not marked. -/
theorem WellFormed.unmarked_of_reconciled (i : Nat)
    (hasked : .noticed i (.asked .reconcile) ∈ journal) :
    (w.marked d.completed).contains i = false := by
  have hstarted := Walk.started_of_noticed h.warranted hasked
  have hlt := (Walk.scope_of_started h.warranted hstarted).1
  obtain ⟨o, ho⟩ := h.finished_of_started hover hstarted
  obtain ⟨outcome, htidy⟩ := h.tidy
  rw [hw.marked_of_lookup outcome d.completed (htidy.finished hover) i hlt o
    ((h.lookup_eq_some hover i o).mpr ho), ← Bool.not_eq_true]
  intro hdeleted
  exact (Walk.fits_of_finished h.warranted ho).spared (Or.inl hdeleted)
    ((Walk.mem_noticesOf _ _ _).mpr hasked)

end

/-- What the journals of a reconcile pass keep to where it deletes nodes. -/
structure Removes (w : Workflow I) (stage : Stage) (journal removal : List Walk.Event) : Prop where
  /-- Nothing is deleted in the walk over all nodes, nothing reconciled in the one that follows. -/
  apart : ∀ i, .noticed i (.asked .delete) ∉ journal ∧ .noticed i (.asked .reconcile) ∉ removal
  doomed : ∀ i, .noticed i (.asked .delete) ∈ removal → w.Doomed journal i
  exclusive : ∀ i, .noticed i (.asked .reconcile) ∈ journal → .noticed i (.asked .delete) ∉ removal
  /-- A node is asked for something only after all that depend on it, doomed like it, are gone. -/
  ordered : ∀ before i n after, removal = before ++ .noticed i n :: after →
    ∀ j ∈ w.successorsAt i, w.Doomed journal j ∧
      ∃ o : NodeOutcome, o.IsGone ∧ .finished j o ∈ before
  once : ∀ i, Walk.Once removal (.noticed i (.asked .delete))
  /-- Above a node that is still there, nothing starts; so what is doomed has no outcome. -/
  spared : ∀ i j o, w.Below i j → .finished j o ∈ removal → o.IsStuck →
    .started i ∉ removal ∧ .noticed i (.asked .delete) ∉ removal ∧
      ∀ r, stage = .over r → w.Doomed journal i → r.outcome? (w.nameAt i) = none
  /-- Every doomed node below which everything is gone has an outcome. -/
  complete : ∀ r, stage = .over r → ∀ i < w.nodes.length, w.Doomed journal i →
    (∀ j ∈ w.successorsAt i, ∃ o : NodeOutcome, o.IsGone ∧ .finished j o ∈ removal) →
      ∃ o, .finished i o ∈ removal ∧ r.outcome? (w.nameAt i) = some o.asDeleted
  performed : ∀ i operations, .finished i (.succeeded operations) ∈ removal →
    .noticed i (.asked .delete) ∈ removal
  /-- The result says of exactly the deleted nodes that they are deleted. -/
  recorded : ∀ r, stage = .over r → ∀ i < w.nodes.length, ∀ operations,
    r.outcome? (w.nameAt i) = some (.deleted operations) ↔
      .finished i (.succeeded operations) ∈ removal

/-- The result of a reconcile pass holds of a doomed node what the walk that deletes doomed nodes
has finished with. -/
theorem Chronicle.outcome_doomed (hw : w.WellFormed) {r : PassResult}
    (h : w.Chronicle env .reconcile primary ctx s₀ (.over r) journal removal s) (i : Nat)
    (hi : i < w.nodes.length) (hdoomed : w.Doomed journal i) :
    r.outcome? (w.nameAt i) =
      ((Walk.finishes removal).lookup i).map NodeOutcome.asDeleted := by
  obtain ⟨d, haccounts, hover, houtcome⟩ := h.outcome_reconciled hw
  have hmark := (hw.marked_iff_doomed haccounts hover i hi).mpr hdoomed
  rw [houtcome i hi]
  unfold observed
  rw [if_pos hmark]
  rfl

/-- What is observed after the walk over all nodes is never that a node was deleted. -/
theorem WellFormed.observed_ne_deleted (hw : w.WellFormed) {d : Walk.Announced I}
    (h : (w.walk .reconcile).Accounts primary ctx journal d) (hover : d.isOver = true) (i : Nat)
    (hi : i < w.nodes.length) (operations : Operations) :
    (w.observed d.completed i).outcome? ≠ some (.deleted operations) := by
  obtain ⟨outcome, htidy⟩ := h.tidy
  rw [hw.outcome_observed outcome d.completed (htidy.finished hover) i hi]
  intro heq
  rcases Option.or_eq_some_iff.mp heq with hran | ⟨_, hinactive⟩
  · have hkept := (Option.filter_eq_some_iff.mp hran).2
    cases hkept
  · split at hinactive
    · cases hinactive
    · cases hinactive

/-- Where the result of a reconcile pass says that a node is deleted, the walk that deletes marked
nodes has finished it. -/
theorem Chronicle.finished_of_deleted (hw : w.WellFormed) {r : PassResult}
    (h : w.Chronicle env .reconcile primary ctx s₀ (.over r) journal removal s) (i : Nat)
    (hi : i < w.nodes.length) (operations : Operations)
    (hdeleted : r.outcome? (w.nameAt i) = some (.deleted operations)) :
    ∃ o : NodeOutcome, .finished i o ∈ removal ∧ o.asDeleted = .deleted operations := by
  obtain ⟨d, haccounts, hover, houtcome⟩ := h.outcome_reconciled hw
  rw [houtcome i hi] at hdeleted
  rcases Option.or_eq_some_iff.mp hdeleted with hobserved | ⟨_, hremoved⟩
  · exact absurd hobserved (hw.observed_ne_deleted haccounts hover i hi operations)
  · obtain ⟨o, ho, heq⟩ := Option.map_eq_some_iff.mp hremoved
    exact ⟨o, (Walk.mem_finishes _ _ _).mp (Association.mem_of_lookup _ i o ho), heq⟩

/-- A walk over all nodes is over, and the walk after it deletes the nodes that it has marked. -/
structure Marks (w : Workflow I) (primary : ManagedObject) (ctx : Context) (stage : Stage)
    (journal removal : List Walk.Event) (d d' : Walk.Announced I) : Prop where
  main : (w.walk .reconcile).Accounts primary ctx journal d
  walked : d.isOver = true
  removal : (w.removal (w.marked d.completed)).Accounts primary ctx removal d'
  ended : ∀ r, stage = .over r → d'.isOver = true

/-- Where something is deleted in a reconcile pass, a walk over all nodes has marked it. -/
theorem Chronicle.removal_reconciled (hw : w.WellFormed)
    (h : w.Chronicle env .reconcile primary ctx s₀ stage journal removal s) :
    (removal = [] ∧ ∀ r, stage = .over r → ∀ i < w.nodes.length, ¬ w.Doomed journal i) ∨
    ∃ d d', w.Marks primary ctx stage journal removal d d' := by
  cases h with
  | walking => exact Or.inl ⟨rfl, nofun⟩
  | walked _ d _ h hover hlast =>
    refine Or.inl ⟨rfl, fun r _ i hi hdoomed => ?_⟩
    have hmark := (hw.marked_iff_doomed (h.accounts hw) hover i hi).mpr hdoomed
    rw [hlast.resolve_left nofun] at hmark
    cases hmark
  | removing _ d _ h hover _ _ _ d' _ h' =>
    exact Or.inr ⟨d, d', h.accounts hw, hover, h'.accounts hw, nofun⟩
  | removed _ d _ h hover _ _ _ d' _ h' hover' =>
    exact Or.inr ⟨d, d', h.accounts hw, hover, h'.accounts hw, fun _ _ => hover'⟩

theorem Chronicle.delete_not_asked (hw : w.WellFormed)
    (h : w.Chronicle env .reconcile primary ctx s₀ stage journal removal s) (i : Nat) :
    .noticed i (.asked .delete) ∉ journal := by
  intro hasked
  obtain ⟨_, _, hmain, _⟩ := h.main
  obtain ⟨gates, hgates⟩ := Walk.gates_of_asked (hmain.accounts hw).warranted hasked
  cases hgates

/-- Where nothing is doomed, nothing is deleted. -/
theorem Chronicle.removes_nothing (hw : w.WellFormed)
    (h : w.Chronicle env .reconcile primary ctx s₀ stage journal [] s)
    (hnone : ∀ r, stage = .over r → ∀ i < w.nodes.length, ¬ w.Doomed journal i) :
    w.Removes stage journal [] := by
  constructor
  case apart => exact fun i => ⟨h.delete_not_asked hw i, List.not_mem_nil⟩
  case exclusive => exact fun _ _ => List.not_mem_nil
  case ordered =>
    intro before i n after heq
    exact absurd heq.symm (List.append_ne_nil_of_right_ne_nil _ (List.cons_ne_nil _ _))
  case once =>
    intro i before after heq
    exact absurd heq.symm (List.append_ne_nil_of_right_ne_nil _ (List.cons_ne_nil _ _))
  case complete => exact fun r hr i hi hdoomed => absurd hdoomed (hnone r hr i hi)
  case recorded =>
    rintro r rfl i hi operations
    refine iff_of_false (fun hdeleted => ?_) List.not_mem_nil
    obtain ⟨o, ho, _⟩ := h.finished_of_deleted hw i hi operations hdeleted
    cases ho
  case doomed | spared | performed => exact nofun

namespace Marks
variable {d d' : Walk.Announced I} {i j : Nat} {o : NodeOutcome}
  (h : w.Marks primary ctx stage journal removal d d') (hw : w.WellFormed)
include h hw

/-- Only doomed nodes are visited by the walk that deletes nodes. -/
theorem doomed (hi : .started i ∈ removal) : w.Doomed journal i := by
  obtain ⟨hlt, hmark⟩ := Walk.scope_of_started h.removal.warranted hi
  exact (hw.marked_iff_doomed h.main h.walked i hlt).mp hmark

theorem delete_not_asked (hasked : .noticed i (.asked .reconcile) ∈ journal) :
    .noticed i (.asked .delete) ∉ removal := by
  intro hdelete
  have hstarted := Walk.started_of_noticed h.removal.warranted hdelete
  have hmark : (w.marked d.completed).contains i = true :=
    (Walk.scope_of_started h.removal.warranted hstarted).2
  rw [hw.unmarked_of_reconciled h.main h.walked i hasked] at hmark
  cases hmark

/-- What depends on a node that is asked for something is doomed with it, and gone before. -/
theorem gone_before {n : Node.Notice} {before after : List Walk.Event}
    (heq : removal = before ++ .noticed i n :: after) (hj : j ∈ w.successorsAt i) :
    w.Doomed journal j ∧ ∃ o : NodeOutcome, o.IsGone ∧ .finished j o ∈ before := by
  have hi : .noticed i n ∈ removal := by
    rw [heq]
    exact List.mem_append_right _ List.mem_cons_self
  have hdoomed := h.doomed hw (Walk.started_of_noticed h.removal.warranted hi)
  exact ⟨hdoomed.below (.single ((hw.mutual_iff j i).mpr hj)),
    (hw.upward_removal d.completed).gone_before h.removal.warranted heq j hj⟩

theorem not_started_above (hbelow : w.Below i j) (ho : .finished j o ∈ removal)
    (hstuck : o.IsStuck) : .started i ∉ removal :=
  (hw.upward_removal d.completed).not_started_above h.removal.warranted hw hbelow ho hstuck

end Marks

section
variable {d d' : Walk.Announced I} {i j : Nat} {o : NodeOutcome} {r : PassResult}
  (h : w.Chronicle env .reconcile primary ctx s₀ (.over r) journal removal s)
  (hmarks : w.Marks primary ctx (.over r) journal removal d d') (hw : w.WellFormed)
include h hmarks hw

/-- The result has what the walk that deletes nodes has finished with. -/
theorem Chronicle.outcome_finished (ho : .finished i o ∈ removal) :
    r.outcome? (w.nameAt i) = some o.asDeleted := by
  have hstarted := Walk.started_of_finished hmarks.removal.warranted ho
  have hlt := (Walk.scope_of_started hmarks.removal.warranted hstarted).1
  rw [h.outcome_doomed hw i hlt (hmarks.doomed hw hstarted), hmarks.removal.finishes_eq,
    (hmarks.removal.lookup_eq_some (hmarks.ended r rfl) i o).mpr ho]
  rfl

/-- A doomed node at which that walk has not come has no outcome. -/
theorem Chronicle.outcome_unstarted (hi : i < w.nodes.length) (hdoomed : w.Doomed journal i)
    (hstarted : .started i ∉ removal) : r.outcome? (w.nameAt i) = none := by
  rw [h.outcome_doomed hw i hi hdoomed, Option.map_eq_none_iff,
    Option.eq_none_iff_forall_ne_some]
  intro o ho
  have hfinished := (Walk.mem_finishes _ _ _).mp (Association.mem_of_lookup _ i o ho)
  exact hstarted (Walk.started_of_finished hmarks.removal.warranted hfinished)

theorem Chronicle.outcome_gone_below (hi : i < w.nodes.length) (hdoomed : w.Doomed journal i)
    (hgone : ∀ j ∈ w.successorsAt i, ∃ o : NodeOutcome, o.IsGone ∧ .finished j o ∈ removal) :
    ∃ o, .finished i o ∈ removal ∧ r.outcome? (w.nameAt i) = some o.asDeleted := by
  have hmark := (hw.marked_iff_doomed hmarks.main hmarks.walked i hi).mpr hdoomed
  obtain ⟨o, ho⟩ := (hw.upward_removal d.completed).finished_of_gone hmarks.removal
    (hmarks.ended r rfl) i hi hmark hgone
  exact ⟨o, ho, h.outcome_finished hmarks hw ho⟩

/-- The result says that a node is deleted where its deletion has succeeded, and only there. -/
theorem Chronicle.outcome_deleted_iff (hi : i < w.nodes.length) (operations : Operations) :
    r.outcome? (w.nameAt i) = some (.deleted operations) ↔
      .finished i (.succeeded operations) ∈ removal := by
  constructor
  · intro hdeleted
    obtain ⟨o, ho, heq⟩ := h.finished_of_deleted hw i hi operations hdeleted
    have hkept := (hw.upward_removal d.completed).isDeleted_eq_false hmarks.removal.warranted ho
    rwa [(o.asDeleted_eq_deleted_iff hkept operations).mp heq] at ho
  · exact fun ho => h.outcome_finished hmarks hw ho

end

/-- What the walk that deletes marked nodes keeps to, after the one that has marked them. -/
theorem Chronicle.removes_marked (hw : w.WellFormed)
    (h : w.Chronicle env .reconcile primary ctx s₀ stage journal removal s)
    {d d' : Walk.Announced I} (hmarks : w.Marks primary ctx stage journal removal d d') :
    w.Removes stage journal removal := by
  have hwarranted := hmarks.removal.warranted
  constructor
  case apart =>
    refine fun i => ⟨h.delete_not_asked hw i, fun hasked => ?_⟩
    obtain ⟨gates, hgates⟩ := Walk.gates_of_asked hwarranted hasked
    cases hgates
  case doomed =>
    exact fun i hasked => hmarks.doomed hw (Walk.started_of_noticed hwarranted hasked)
  case exclusive => exact fun i hasked => hmarks.delete_not_asked hw hasked
  case ordered => exact fun before i n after heq j hj => hmarks.gone_before hw heq hj
  case once => exact fun i => Walk.asked_once hwarranted i _
  case spared =>
    intro i j o hbelow ho hstuck
    have hstarted := hmarks.not_started_above hw hbelow ho hstuck
    refine ⟨hstarted, fun hn => hstarted (Walk.started_of_noticed hwarranted hn), ?_⟩
    rintro r rfl hdoomed
    exact h.outcome_unstarted hmarks hw (hw.lt_of_below i j hbelow) hdoomed hstarted
  case complete =>
    rintro r rfl i hi hdoomed hgone
    exact h.outcome_gone_below hmarks hw hi hdoomed hgone
  case performed =>
    exact fun i operations ho =>
      ((hw.upward_removal d.completed).deleted_of_finished hwarranted ho).1 rfl
  case recorded =>
    rintro r rfl i hi operations
    exact h.outcome_deleted_iff hmarks hw hi operations

theorem Chronicle.removes (hw : w.WellFormed)
    (h : w.Chronicle env .reconcile primary ctx s₀ stage journal removal s) :
    w.Removes stage journal removal := by
  rcases h.removal_reconciled hw with ⟨rfl, hnone⟩ | ⟨_, _, hmarks⟩
  · exact h.removes_nothing hw hnone
  · exact h.removes_marked hw hmarks

end Workflow

namespace WorkflowPlan
variable {I : Interface} {σ : Type}

/-- Under every schedule, a reconcile pass over an accepted workflow deletes what is doomed and
nothing else, from the leaves up; and whatever is answered and when, the pass comes to a result,
under some such schedule. -/
theorem reconcile_removes (p : WorkflowPlan I) (w : Workflow I) (hw : p.build = .ok w)
    (env : Environment I σ) (primary : ManagedObject) (ctx : Context) (now : Nat) (s : σ) :
    (∀ stage journal removal s',
      w.Chronicle env .reconcile primary ctx s stage journal removal s' →
        w.Removes stage journal removal) ∧
    (∃ fuel r, ((w.pass .reconcile primary ctx).finish env fuel now s).1 = some r) ∧
    ∀ fuel r now' s',
      (w.pass .reconcile primary ctx).finish env fuel now s = (some r, now', s') →
        ∃ journal removal,
          w.Chronicle env .reconcile primary ctx s (.over r) journal removal s' := by
  obtain ⟨hformed, _⟩ := p.build_wellFormed w hw
  exact ⟨fun _ _ _ _ h => h.removes hformed,
    Pass.finish_told hformed env .reconcile primary ctx now s⟩

/-- The cache is not wanted any more: it is deleted after the interface, which needs it. -/
theorem reconcile_removes_rollout :
    ∃ w, rollout.build = .ok w ∧ ∃ r journal removal,
      (w.pass .reconcile default { primary := default }).finish clock 9 0 () = (some r, 14, ()) ∧
      w.Chronicle clock .reconcile default { primary := default } () (.over r) journal removal () ∧
      ∃ before after, removal = before ++ .noticed 2 (.asked .delete) :: after ∧
        ∃ o : NodeOutcome, o.IsGone ∧ .finished 0 o ∈ before := by
  have hbuild : rollout.build = .ok (rollout.ordered [2, 1, 3, 0]) := rfl
  obtain ⟨hremoves, _, htold⟩ := rollout.reconcile_removes _ hbuild clock default
    { primary := default } 0 ()
  obtain ⟨r, hr, hcache⟩ : ∃ r, ((rollout.ordered [2, 1, 3, 0]).pass .reconcile default
      { primary := default }).finish clock 9 0 () = (some r, 14, ()) ∧
      r.outcome? "cache" = some (.deleted {}) := ⟨_, rfl, rfl⟩
  obtain ⟨journal, removal, hchronicle⟩ := htold 9 r 14 () hr
  have hjournal := hremoves _ _ _ _ hchronicle
  have hfinished := (hjournal.recorded r rfl 2 (by decide) {}).mp hcache
  obtain ⟨before, after, heq⟩ := List.append_of_mem (hjournal.performed 2 {} hfinished)
  refine ⟨_, hbuild, r, journal, removal, hr, hchronicle, before, after, heq, ?_⟩
  exact (hjournal.ordered before 2 _ after heq 0 (by decide)).2

end WorkflowPlan
end Reconciliation
