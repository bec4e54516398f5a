import Reconciliation.Dependent.Outcome
import Reconciliation.Proofs.Sorted.Lookup
import Reconciliation.Proofs.Task.Halting
import Reconciliation.Proofs.Workflow.Shape
import Reconciliation.Proofs.Workflow.Visit
import Reconciliation.Workflow.Pass

/-!
The state of a walk. Every node is released at most once, and it is released exactly when the
outcomes so far let it start; an outcome that lets a node start once lets it start for ever. So
a walk that is over has an outcome for exactly the nodes that its own outcomes let start. A walk
begins in such a state, and each start, each update and each end of a visit leads to another.
-/
namespace Reconciliation

namespace Drive
variable {τ : Type}

/-- The nodes that were released, wherever they stand now. -/
def ids (d : Drive τ) : List Nat :=
  d.waiting ++ (d.running.map (·.1) ++ d.completed.map (·.1))

theorem isReleased_iff (d : Drive τ) (i : Nat) : d.isReleased i = true ↔ i ∈ d.ids := by
  unfold isReleased ids
  simp only [Bool.or_eq_true, List.contains_iff_mem, List.any_eq_true, beq_iff_eq,
    List.mem_append, List.mem_map, or_assoc]

theorem ids_start_perm (d : Drive τ) (i : Nat) (rest : List Nat) (t : τ)
    (hw : d.waiting = i :: rest) : (d.start i t).ids.Perm d.ids := by
  unfold ids start
  rw [hw, List.tail_cons, List.map_append, List.map_singleton, List.append_assoc,
    List.singleton_append]
  have hmove : ((rest ++ d.running.map (·.1)) ++ i :: d.completed.map (·.1)).Perm
      (i :: ((rest ++ d.running.map (·.1)) ++ d.completed.map (·.1))) := List.perm_middle
  rw [List.append_assoc, List.append_assoc] at hmove
  exact hmove

theorem keys_update (d : Drive τ) (i : Nat) (t : τ) :
    (d.update i t).running.map (·.1) = d.running.map (·.1) := by
  unfold update
  rw [List.map_map]
  refine List.map_congr_left fun e _ => ?_
  by_cases he : e.1 = i
  · simp [he]
  · simp [he]

theorem ids_update (d : Drive τ) (i : Nat) (t : τ) : (d.update i t).ids = d.ids := by
  unfold ids
  rw [keys_update]
  rfl

theorem mem_running_update (d : Drive τ) (i : Nat) (t : τ) (e : Nat × τ)
    (he : e ∈ (d.update i t).running) : e = (i, t) ∨ (e ∈ d.running ∧ e.1 ≠ i) := by
  unfold update at he
  obtain ⟨e', he', rfl⟩ := List.mem_map.mp he
  by_cases hi : e'.1 = i
  · simp only [hi, if_true]
    exact Or.inl trivial
  · simp only [hi, if_false]
    exact Or.inr ⟨he', hi⟩

theorem mem_running_update_of_ne (d : Drive τ) (i : Nat) (t : τ) (e : Nat × τ)
    (he : e ∈ d.running) (hne : e.1 ≠ i) : e ∈ (d.update i t).running := by
  unfold update
  refine List.mem_map.mpr ⟨e, he, ?_⟩
  rw [if_neg hne]

/-- Moves a node from the running ones to the finished ones. -/
def complete (d : Drive τ) (i : Nat) (o : NodeOutcome) : Drive τ :=
  { d with
    running := d.running.filter (·.1 ≠ i)
    completed := d.completed ++ [(i, o)] }

/-- A node whose visit ends moves from the running nodes to the completed ones. -/
theorem ids_complete_perm (d : Drive τ) (i : Nat) (o : NodeOutcome) (hnodup : d.ids.Nodup)
    (hi : i ∈ d.running.map (·.1)) : (d.complete i o).ids.Perm d.ids := by
  have hkeys : (d.running.map (·.1)).Nodup :=
    ((List.nodup_append.mp hnodup).2.1.sublist (List.sublist_append_left _ _))
  have hfilter : (d.running.filter (·.1 ≠ i)).map (·.1) = (d.running.map (·.1)).erase i := by
    rw [hkeys.erase_eq_filter, List.filter_map]
    congr 1
    refine List.filter_congr fun e _ => ?_
    simp [bne, Bool.beq_eq_decide_eq]
  have hlast : ((d.running.map (·.1)).erase i ++ (d.completed.map (·.1) ++ [i])).Perm
      ((d.running.map (·.1)).erase i ++ i :: d.completed.map (·.1)) :=
    List.perm_append_comm.append_left _
  have hback : (i :: (d.running.map (·.1)).erase i ++ d.completed.map (·.1)).Perm
      (d.running.map (·.1) ++ d.completed.map (·.1)) :=
    (List.perm_cons_erase hi).symm.append_right _
  unfold ids complete
  dsimp only
  rw [hfilter, List.map_append, List.map_singleton]
  exact ((hlast.trans List.perm_middle).trans hback).append_left _

end Drive

namespace Walk
variable {I : Interface} {τ : Type}

/-- The nodes whose outcomes a node waits for. -/
def upstream (w : Walk I) (i : Nat) : List Nat :=
  match w.mode with
  | .reconcile => w.workflow.predecessorsAt i
  | .cleanup => (w.workflow.successorsAt i).filter w.scope

/-- The outcomes that let the nodes downstream start. -/
def lets (w : Walk I) (o : NodeOutcome) : Bool :=
  match w.mode with
  | .reconcile => o.isSucceeded
  | .cleanup => o.isSettled

/-- A node may start if it is in the scope and the outcomes of all nodes before it let it. -/
theorem isEligible_iff (w : Walk I) (completed : List (Nat × NodeOutcome)) (i : Nat) :
    w.isEligible completed i = true ↔
      w.scope i = true ∧ ∀ p ∈ w.upstream i, (completed.lookup p).any w.lets = true := by
  unfold isEligible upstream lets
  cases hm : w.mode with
  | reconcile =>
    simp only [Bool.and_eq_true, List.all_eq_true]
    exact Iff.rfl
  | cleanup =>
    simp only [Bool.and_eq_true, List.all_eq_true, Bool.or_eq_true, Bool.not_eq_true',
      List.mem_filter, and_imp]
    refine and_congr_right fun _ => forall_congr' fun s => ?_
    cases w.scope s <;> simp [successors, Workflow.successorsAt]

theorem mem_downstream (w : Walk I) (hw : w.workflow.WellFormed) (i p : Nat)
    (hp : p ∈ w.upstream i) : i ∈ w.downstream p := by
  unfold upstream at hp
  unfold downstream
  cases hm : w.mode with
  | reconcile =>
    rw [hm] at hp
    exact (hw.mutual_iff i p).mp hp
  | cleanup =>
    rw [hm] at hp
    exact (hw.mutual_iff p i).mpr (List.mem_filter.mp hp).1

theorem downstream_nodup (w : Walk I) (hw : w.workflow.WellFormed) (i : Nat) :
    (w.downstream i).Nodup := by
  unfold downstream
  cases w.mode with
  | reconcile => exact hw.nodup_successors i
  | cleanup => exact hw.nodup_predecessors i

theorem downstream_lt (w : Walk I) (hw : w.workflow.WellFormed) (i j : Nat)
    (hj : j ∈ w.downstream i) : j < w.workflow.nodes.length := by
  unfold downstream at hj
  cases hm : w.mode with
  | reconcile =>
    rw [hm] at hj
    exact hw.successor_lt i j hj
  | cleanup =>
    rw [hm] at hj
    exact hw.predecessor_lt i j hj

theorem order_perm (w : Walk I) (hw : w.workflow.WellFormed) :
    w.order.Perm (List.range w.workflow.nodes.length) := by
  unfold order
  cases w.mode with
  | reconcile => exact hw.perm
  | cleanup => exact (List.reverse_perm _).trans hw.perm

/-- One more outcome takes no node's eligibility away. -/
theorem isEligible_append (w : Walk I) (completed more : List (Nat × NodeOutcome)) (i : Nat)
    (h : w.isEligible completed i = true) : w.isEligible (completed ++ more) i = true := by
  rw [isEligible_iff] at h ⊢
  refine ⟨h.1, fun p hp => ?_⟩
  obtain ⟨o, ho, hlets⟩ := (Option.any_eq_true _ _).mp (h.2 p hp)
  rw [List.lookup_append, ho, Option.some_or, Option.any_some]
  exact hlets

/-- The released nodes of a walk are those that its outcomes let start, each of them once. -/
structure Tidy (w : Walk I) (outcome : Nat → NodeOutcome) (d : Drive τ) : Prop where
  nodup : d.ids.Nodup
  ids_lt : ∀ i ∈ d.ids, i < w.workflow.nodes.length
  eligible : ∀ i ∈ d.ids, w.isEligible d.completed i = true
  released : ∀ i < w.workflow.nodes.length, w.isEligible d.completed i = true → i ∈ d.ids
  outcomes : ∀ e ∈ d.completed, e.2 = outcome e.1

/-- The nodes that wait at the beginning are those of the scope with no node before them. -/
theorem tidy_begin (w : Walk I) (hw : w.workflow.WellFormed) (outcome : Nat → NodeOutcome) :
    w.Tidy outcome (w.begin : Drive τ) := by
  have hperm := w.order_perm hw
  have hids : (w.begin : Drive τ).ids = w.order.filter (w.isEligible []) := by
    simp [begin, Drive.ids]
  refine ⟨?_, fun i hi => ?_, fun i hi => ?_, fun i hi helig => ?_, fun e he => ?_⟩
  · rw [hids]
    exact (hperm.nodup_iff.mpr List.nodup_range).filter _
  · rw [hids] at hi
    exact List.mem_range.mp (hperm.mem_iff.mp (List.mem_filter.mp hi).1)
  · rw [hids] at hi
    exact (List.mem_filter.mp hi).2
  · rw [hids]
    exact List.mem_filter.mpr ⟨hperm.mem_iff.mpr (List.mem_range.mpr hi), helig⟩
  · cases he

theorem Tidy.start {w : Walk I} {outcome : Nat → NodeOutcome} {d : Drive τ}
    (h : w.Tidy outcome d) (i : Nat) (rest : List Nat) (t : τ) (hwait : d.waiting = i :: rest) :
    w.Tidy outcome (d.start i t) := by
  have hperm := d.ids_start_perm i rest t hwait
  exact ⟨hperm.nodup_iff.mpr h.nodup, fun j hj => h.ids_lt j (hperm.mem_iff.mp hj),
    fun j hj => h.eligible j (hperm.mem_iff.mp hj),
    fun j hj helig => hperm.mem_iff.mpr (h.released j hj helig), h.outcomes⟩

theorem Tidy.update {w : Walk I} {outcome : Nat → NodeOutcome} {d : Drive τ}
    (h : w.Tidy outcome d) (i : Nat) (t : τ) : w.Tidy outcome (d.update i t) := by
  have hids := d.ids_update i t
  exact ⟨hids ▸ h.nodup, fun j hj => h.ids_lt j (hids ▸ hj), fun j hj => h.eligible j (hids ▸ hj),
    fun j hj helig => hids ▸ h.released j hj helig, h.outcomes⟩

/-- The nodes that the outcome of another one releases. -/
def releasedBy (w : Walk I) (d : Drive τ) (i : Nat) (o : NodeOutcome) : List Nat :=
  (w.downstream i).filter fun j =>
    !(d.complete i o).isReleased j && w.isEligible (d.complete i o).completed j

theorem finish_eq (w : Walk I) (d : Drive τ) (i : Nat) (o : NodeOutcome) :
    w.finish d i o =
      { d.complete i o with waiting := d.waiting ++ w.releasedBy d i o } := rfl

theorem ids_finish_perm (w : Walk I) (d : Drive τ) (i : Nat) (o : NodeOutcome) :
    (w.finish d i o).ids.Perm (w.releasedBy d i o ++ (d.complete i o).ids) := by
  rw [finish_eq]
  unfold Drive.ids
  rw [List.append_assoc]
  exact List.perm_append_comm_assoc _ _ _

theorem mem_releasedBy (w : Walk I) (d : Drive τ) (i j : Nat) (o : NodeOutcome) :
    j ∈ w.releasedBy d i o ↔ j ∈ w.downstream i ∧ j ∉ (d.complete i o).ids ∧
      w.isEligible (d.complete i o).completed j = true := by
  unfold releasedBy
  rw [List.mem_filter, Bool.and_eq_true, Bool.not_eq_true', ← Bool.not_eq_true,
    Drive.isReleased_iff]

/-- A node that an outcome lets start was held back by the node of that outcome. -/
theorem newly_eligible (w : Walk I) (d : Drive τ) (i j : Nat) (o : NodeOutcome)
    (hold : w.isEligible d.completed j ≠ true)
    (hnew : w.isEligible (d.complete i o).completed j = true) : i ∈ w.upstream j := by
  obtain ⟨hscope, hall⟩ := (w.isEligible_iff _ j).mp hnew
  by_contra hnot
  refine hold ((w.isEligible_iff _ j).mpr ⟨hscope, fun p hp => ?_⟩)
  have hne : p ≠ i := fun h => hnot (h ▸ hp)
  have hp := hall p hp
  unfold Drive.complete at hp
  rw [List.lookup_append, List.lookup_cons, beq_false_of_ne hne] at hp
  simpa using hp

/-- The nodes that are released are those that the new outcome lets start and that no earlier one
did. -/
theorem Tidy.finish {w : Walk I} (hw : w.workflow.WellFormed) {outcome : Nat → NodeOutcome}
    {d : Drive τ} (h : w.Tidy outcome d) (i : Nat) (hi : i ∈ d.running.map (·.1)) :
    w.Tidy outcome (w.finish d i (outcome i)) := by
  have hperm := w.ids_finish_perm d i (outcome i)
  have hcomplete := d.ids_complete_perm i (outcome i) h.nodup hi
  have hmem : ∀ j, j ∈ (w.finish d i (outcome i)).ids ↔
      j ∈ w.releasedBy d i (outcome i) ∨ j ∈ d.ids := by
    intro j
    rw [hperm.mem_iff, List.mem_append, hcomplete.mem_iff]
  refine ⟨?_, fun j hj => ?_, fun j hj => ?_, fun j hj helig => ?_, fun e he => ?_⟩
  · rw [hperm.nodup_iff, List.nodup_append]
    refine ⟨(w.downstream_nodup hw i).filter _, hcomplete.nodup_iff.mpr h.nodup, ?_⟩
    rintro j hj _ hids rfl
    exact ((w.mem_releasedBy d i j _).mp hj).2.1 hids
  · rcases (hmem j).mp hj with hreleased | hids
    · exact w.downstream_lt hw i j ((w.mem_releasedBy d i j _).mp hreleased).1
    · exact h.ids_lt j hids
  · rcases (hmem j).mp hj with hreleased | hids
    · exact ((w.mem_releasedBy d i j _).mp hreleased).2.2
    · exact w.isEligible_append d.completed _ j (h.eligible j hids)
  · rw [hmem]
    by_cases hold : w.isEligible d.completed j = true
    · exact Or.inr (h.released j hj hold)
    · have hup := w.newly_eligible d i j (outcome i) hold helig
      by_cases hids : j ∈ d.ids
      · exact Or.inr hids
      · refine Or.inl ((w.mem_releasedBy d i j _).mpr ⟨w.mem_downstream hw j i hup, ?_, helig⟩)
        rw [hcomplete.mem_iff]
        exact hids
  · rcases List.mem_append.mp he with hold | hnew
    · exact h.outcomes e hold
    · rw [List.mem_singleton.mp hnew]

/-- The outcomes of a walk that is over: each node that they let start has its own, once. -/
structure Finished (w : Walk I) (outcome : Nat → NodeOutcome)
    (completed : List (Nat × NodeOutcome)) : Prop where
  nodup : (completed.map (·.1)).Nodup
  ids_lt : ∀ e ∈ completed, e.1 < w.workflow.nodes.length
  lookup : ∀ i < w.workflow.nodes.length, completed.lookup i =
    if w.isEligible completed i = true then some (outcome i) else none

/-- With no node waiting and none running, an eligible node must be completed. -/
theorem Tidy.finished {w : Walk I} {outcome : Nat → NodeOutcome} {d : Drive τ}
    (h : w.Tidy outcome d) (hover : d.isOver = true) : w.Finished outcome d.completed := by
  have hids : d.ids = d.completed.map (·.1) := by
    unfold Drive.isOver at hover
    rw [Bool.and_eq_true, List.isEmpty_iff, List.isEmpty_iff] at hover
    unfold Drive.ids
    rw [hover.1, hover.2]
    rfl
  refine ⟨hids ▸ h.nodup, fun e he => ?_, fun i hi => ?_⟩
  · apply h.ids_lt
    rw [hids]
    exact List.mem_map_of_mem he
  · cases hlook : d.completed.lookup i with
    | some o =>
      have hmem := Association.mem_of_lookup _ i o hlook
      have helig := h.eligible i (by rw [hids]; exact List.mem_map_of_mem hmem)
      have houtcome : o = outcome i := h.outcomes (i, o) hmem
      rw [if_pos helig, houtcome]
    | none =>
      rw [if_neg]
      intro helig
      have hmem := h.released i hi helig
      rw [hids] at hmem
      obtain ⟨e, he, rfl⟩ := List.mem_map.mp hmem
      rw [Association.lookup_of_mem _ (hids ▸ h.nodup) e.1 e.2 he] at hlook
      cases hlook

end Walk
end Reconciliation
