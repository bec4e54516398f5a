import Reconciliation.Proofs.Workflow.Refinement
import Reconciliation.Proofs.Workflow.Telling

/-!
The gates of a reconcile pass. Whatever is answered and when, the walk over all nodes goes from
the roots down: a node is asked for something only below nodes that have all succeeded, it is
reconciled only where its conditions hold, and every node that is let start does start. Below a
node that does not succeed nothing happens.
-/
namespace Reconciliation

theorem NodeOutcome.exists_of_isSucceeded (o : NodeOutcome) (h : o.isSucceeded = true) :
    ∃ operations, o = .succeeded operations := by
  cases o with
  | succeeded operations => exact ⟨operations, rfl⟩
  | _ => cases h

namespace Workflow
variable {I : Interface} {σ : Type} {w : Workflow I} {env : Environment I σ} {mode : PassMode}
  {primary : ManagedObject} {ctx : Context} {s₀ s : σ} {stage : Stage}
  {journal removal : List Walk.Event}

/-- The result of a reconcile pass holds what is observed after its walk over all nodes, and what
the walk that deletes marked nodes has finished. -/
theorem Chronicle.outcome_reconciled (hw : w.WellFormed) {r : PassResult}
    (h : w.Chronicle env .reconcile primary ctx s₀ (.over r) journal removal s) :
    ∃ d, (w.walk .reconcile).Accounts primary ctx journal d ∧ d.isOver = true ∧
      ∀ i < w.nodes.length, r.outcome? (w.nameAt i) =
        (w.observed d.completed i).outcome?.or
          (((Walk.finishes removal).lookup i).map NodeOutcome.asDeleted) := by
  cases h with
  | walked _ d _ h hover hlast =>
    have haccounts := h.accounts hw
    obtain ⟨outcome, htidy⟩ := haccounts.tidy
    obtain ⟨es, hrecords, hes⟩ := hw.records_main outcome d.completed (htidy.finished hover)
    refine ⟨d, haccounts, hover, fun i hi => ?_⟩
    rw [hrecords.outcome?_nameAt hw i hi, hes i hi]
    exact (Option.or_none).symm
  | removed _ d s₁ h hover _ _ _ d' _ h' hover' =>
    have haccounts := h.accounts hw
    have hremoval := h'.accounts hw
    obtain ⟨outcome, htidy⟩ := haccounts.tidy
    obtain ⟨cleaned, htidy'⟩ := hremoval.tidy
    obtain ⟨es, hrecords, hes⟩ := hw.records_removal outcome cleaned d.completed d'.completed
      (htidy.finished hover) (htidy'.finished hover')
    refine ⟨d, haccounts, hover, fun i hi => ?_⟩
    rw [hrecords.outcome?_nameAt hw i hi, hes i hi, hremoval.finishes_eq]

/-- A node that has succeeded is recorded as such. -/
theorem WellFormed.observed_of_succeeded (hw : w.WellFormed) {d : Walk.Announced I}
    (h : (w.walk .reconcile).Accounts primary ctx journal d) (hover : d.isOver = true) (i : Nat)
    (hi : i < w.nodes.length) (operations : Operations)
    (ho : .finished i (.succeeded operations) ∈ journal) :
    w.observed d.completed i = .reached (.succeeded operations) := by
  obtain ⟨outcome, htidy⟩ := h.tidy
  have hlookup := (h.lookup_eq_some hover i _).mpr ho
  have hmark := hw.marked_of_lookup outcome d.completed (htidy.finished hover) i hi _ hlookup
  unfold observed
  rw [hmark, hlookup]
  rfl

/-- What the journal of the walk over all nodes keeps to in a reconcile pass. -/
structure Gated (w : Workflow I) (primary : ManagedObject) (ctx : Context) (stage : Stage)
    (journal : List Walk.Event) : Prop where
  /-- A node is asked for something only after all its predecessors have succeeded. -/
  ordered : ∀ before i n after, journal = before ++ .noticed i n :: after →
    ∀ p ∈ w.predecessorsAt i, ∃ operations, .finished p (.succeeded operations) ∈ before
  once : ∀ i, Walk.Once journal (.started i)
  unique : ∀ i o o', .finished i o ∈ journal → .finished i o' ∈ journal → o = o'
  /-- When the walk is over, every node whose predecessors have all succeeded has started. -/
  complete : stage ≠ .walking → ∀ i < w.nodes.length,
    (∀ p ∈ w.predecessorsAt i, ∃ operations, .finished p (.succeeded operations) ∈ journal) →
      .started i ∈ journal
  /-- A node is reconciled only where its conditions were found to hold, or are absent. -/
  held : ∀ before i after, journal = before ++ .noticed i (.asked .reconcile) :: after →
    ∃ node, w.nodeAt? i = some node ∧
      node.node.Holds primary ctx (Walk.noticesOf i before) .activation ∧
      node.node.Holds primary ctx (Walk.noticesOf i before) .reconcilePrecondition
  /-- Below a node that has not succeeded, nothing starts and nothing is asked for. -/
  spared : ∀ p i, w.Below p i → (∀ operations, .finished p (.succeeded operations) ∉ journal) →
    .started i ∉ journal ∧ ∀ n, .noticed i n ∉ journal
  /-- So it is below a node that the result does not hold to have succeeded. -/
  unsuccessful : ∀ r, stage = .over r → ∀ p i, w.Below p i →
    (∀ operations, r.outcome? (w.nameAt p) ≠ some (.succeeded operations)) →
      .started i ∉ journal ∧ ∀ n, .noticed i n ∉ journal
  bounded : ∀ before after, journal = before ++ after →
    (Walk.starts before).length ≤ (Walk.finishes before).length + w.maxConcurrency

/-- Nothing starts and nothing is asked for below a node that has not succeeded. -/
theorem spared_below (h : Warranted ((w.walk .reconcile).Permits primary ctx) [] journal)
    (p i : Nat) (hbelow : w.Below p i)
    (hp : ∀ operations, .finished p (.succeeded operations) ∉ journal) :
    .started i ∉ journal ∧ ∀ n, .noticed i n ∉ journal := by
  have hstarted : .started i ∉ journal := by
    intro hi
    obtain ⟨before, after, heq⟩ := List.append_of_mem hi
    obtain ⟨o, hlets, ho⟩ := Walk.finished_above h hbelow before after heq
    obtain ⟨operations, rfl⟩ := o.exists_of_isSucceeded hlets
    refine hp operations ?_
    rw [heq]
    exact List.mem_append_left _ ho
  exact ⟨hstarted, fun n hn => hstarted (Walk.started_of_noticed h hn)⟩

/-- All permitted events keep the gates, so a whole chronicle does; that the nodes do start comes
from the end of the walk. -/
theorem Chronicle.gated (hw : w.WellFormed)
    (h : w.Chronicle env .reconcile primary ctx s₀ stage journal removal s) :
    w.Gated primary ctx stage journal := by
  obtain ⟨d, s₁, hmain, hover⟩ := h.main
  have haccounts := hmain.accounts hw
  have hwarranted := haccounts.warranted
  constructor
  case ordered =>
    intro before i n after heq p hp
    obtain ⟨o, hlets, ho⟩ := Walk.finished_upstream hwarranted heq p hp
    obtain ⟨operations, rfl⟩ := o.exists_of_isSucceeded hlets
    exact ⟨operations, ho⟩
  case once => exact Walk.started_once hwarranted
  case unique => exact fun i o o' => Walk.finished_unique hwarranted
  case complete =>
    intro hstage i hi hpred
    obtain ⟨o, ho⟩ := haccounts.complete (hover hstage) i hi rfl fun p hp => by
      obtain ⟨operations, ho⟩ := hpred p hp
      exact ⟨_, rfl, ho⟩
    exact Walk.started_of_finished hwarranted ho
  case held =>
    intro before i after heq
    obtain ⟨node, gates, hnode, hgates, hheld⟩ := Walk.holds_of_asked hwarranted heq
    cases hgates
    exact ⟨node, hnode, hheld _ List.mem_cons_self,
      hheld _ (List.mem_cons_of_mem _ List.mem_cons_self)⟩
  case spared => exact spared_below hwarranted
  case unsuccessful =>
    rintro r rfl p i hbelow hp
    refine spared_below hwarranted p i hbelow fun operations ho => hp operations ?_
    obtain ⟨d', haccounts', hover', houtcome⟩ := h.outcome_reconciled hw
    have hlt := hw.lt_of_below p i hbelow
    rw [houtcome p hlt, hw.observed_of_succeeded haccounts' hover' p hlt operations ho]
    rfl
  case bounded => exact Walk.starts_bounded hwarranted

end Workflow

namespace WorkflowPlan
variable {I : Interface} {σ : Type}

/-- Under every schedule, a reconcile pass over an accepted workflow keeps to its gates: a node
starts once at most, after all its predecessors have succeeded, and is reconciled only where its
conditions hold. Whatever is answered and when, the pass comes to a result, under some such
schedule. -/
theorem reconcile_gated (p : WorkflowPlan I) (w : Workflow I) (hw : p.build = .ok w)
    (env : Environment I σ) (primary : ManagedObject) (ctx : Context) (now : Nat) (s : σ) :
    (∀ stage journal removal s',
      w.Chronicle env .reconcile primary ctx s stage journal removal s' →
        w.Gated primary ctx stage journal) ∧
    (∃ fuel r, ((w.pass .reconcile primary ctx).finish env fuel now s).1 = some r) ∧
    ∀ fuel r now' s',
      (w.pass .reconcile primary ctx).finish env fuel now s = (some r, now', s') →
        ∃ journal removal,
          w.Chronicle env .reconcile primary ctx s (.over r) journal removal s' := by
  obtain ⟨hformed, _⟩ := p.build_wellFormed w hw
  exact ⟨fun _ _ _ _ h => h.gated hformed,
    Pass.finish_told hformed env .reconcile primary ctx now s⟩

/-- The settings start and turn out to be inactive; the interface, which needs them, does not
start. -/
theorem reconcile_gated_rollout :
    ∃ w, rollout.build = .ok w ∧ ∃ r journal removal,
      (w.pass .reconcile default { primary := default }).finish clock 9 0 () = (some r, 14, ()) ∧
      w.Chronicle clock .reconcile default { primary := default } () (.over r) journal removal () ∧
      .started 1 ∈ journal ∧ .started 0 ∉ journal := by
  have hbuild : rollout.build = .ok (rollout.ordered [2, 1, 3, 0]) := rfl
  obtain ⟨hgated, _, htold⟩ := rollout.reconcile_gated _ hbuild clock default
    { primary := default } 0 ()
  obtain ⟨r, hr, hsettings⟩ : ∃ r, ((rollout.ordered [2, 1, 3, 0]).pass .reconcile default
      { primary := default }).finish clock 9 0 () = (some r, 14, ()) ∧
      r.outcome? "settings" = some .skippedInactive := ⟨_, rfl, rfl⟩
  obtain ⟨journal, removal, hchronicle⟩ := htold 9 r 14 () hr
  have hjournal := hgated _ _ _ _ hchronicle
  refine ⟨_, hbuild, r, journal, removal, hr, hchronicle, ?_, ?_⟩
  · refine hjournal.complete nofun 1 (by decide) fun p hp => ?_
    exact absurd hp (by decide +revert)
  · refine (hjournal.unsuccessful r rfl 1 0 (.single (by decide)) fun operations ho => ?_).1
    cases hsettings.symm.trans ho

end WorkflowPlan
end Reconciliation
