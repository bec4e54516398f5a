import Reconciliation.Proofs.Task.Notices
import Reconciliation.Workflow.Visit

/-!
What the visit of a node asks for. A node can give notice of each of its parts when a visit asks
for it, and of each condition when it is answered. Whatever the answers are, a visit asks for a
part at most once, and only when the conditions that the part needs hold or are absent.
-/
namespace Reconciliation

namespace Node

/-- What the visit of a node can ask for. -/
inductive Part where
  | check (kind : ConditionKind)
  | reconcile
  | delete

/-- What a node gives notice of. -/
inductive Notice where
  | asked (part : Part)
  | answered (kind : ConditionKind) (answer : Except Error Bool)

end Node

namespace PassMode

/-- The conditions that have to hold before a visit asks for a part; there are none where it
never asks for the part. -/
def gates : PassMode → Node.Part → Option (List ConditionKind)
  | .reconcile, .check .activation => some []
  | .reconcile, .check .reconcilePrecondition => some [.activation]
  | .reconcile, .reconcile => some [.activation, .reconcilePrecondition]
  | .reconcile, .check .ready => some [.activation, .reconcilePrecondition]
  | .cleanup, .check .activation => some []
  | .cleanup, .check .cleanupReady => some [.activation]
  | .cleanup, .delete => some [.activation, .cleanupReady]
  | _, _ => none

/-- What the visits of a mode are for. -/
def operation : PassMode → Node.Part
  | .reconcile => .reconcile
  | .cleanup => .delete

theorem operation_ne_check (mode : PassMode) (kind : ConditionKind) :
    mode.operation ≠ .check kind := by
  cases mode <;> exact Node.Part.noConfusion

end PassMode

namespace Node
variable {I : Interface}

/-- The same node, which gives notice of what it is asked for and of what its conditions say. -/
def announcing (n : Node I) : Node (I.noticing Notice) where
  name := n.name
  dependsOn := n.dependsOn
  capability := n.capability
  check kind primary ctx := (n.check kind primary ctx).map fun evaluate =>
    .call (.inl (.asked (.check kind))) fun _ => (evaluate.lifted Notice).bind fun answer =>
      .call (.inl (.answered kind answer)) fun _ => .done answer
  reconcile primary ctx :=
    .call (.inl (.asked .reconcile)) fun _ => (n.reconcile primary ctx).lifted Notice
  delete primary ctx :=
    .call (.inl (.asked .delete)) fun _ => (n.delete primary ctx).lifted Notice

section
variable (n : Node I) (primary : ManagedObject) (ctx : Context)

/-- The node has no such condition, or it was found to hold. -/
def Holds (past : List Notice) (kind : ConditionKind) : Prop :=
  n.check kind primary ctx = none ∨ .answered kind (.ok true) ∈ past

/-- The notices that a visit may give after those before it. -/
inductive Licence (mode : PassMode) (past : List Notice) : Notice → Prop
  | asked (part : Part) (gates : List ConditionKind) (hgates : mode.gates part = some gates)
      (hheld : ∀ kind ∈ gates, n.Holds primary ctx past kind) (hnew : .asked part ∉ past) :
      Licence mode past (.asked part)
  | answered (kind : ConditionKind) (answer : Except Error Bool)
      (hasked : .asked (.check kind) ∈ past) (hnew : ∀ a, .answered kind a ∉ past) :
      Licence mode past (.answered kind answer)

end

/-- The outcome of a visit agrees with its notices. -/
structure Fits (mode : PassMode) (past : List Notice) (o : NodeOutcome) : Prop where
  deleted_iff : o.isDeleted = true ↔ .answered .reconcilePrecondition (.ok false) ∈ past
  spared : o.isDeleted = true ∨ o.isSkipped = true → .asked mode.operation ∉ past
  performed : o.isSucceeded = true → .asked mode.operation ∈ past

/-- A visit that asked for nothing but these parts has found these conditions to hold. -/
structure Passed (n : Node I) (primary : ManagedObject) (ctx : Context)
    (gates : List ConditionKind) (parts : List Part) (past : List Notice) : Prop where
  held : ∀ kind ∈ gates, n.Holds primary ctx past kind
  asked : ∀ part, .asked part ∈ past → part ∈ parts
  answered : ∀ kind a, .answered kind a ∈ past → kind ∈ gates ∧ a = .ok true

section
variable {n : Node I} {primary : ManagedObject} {ctx : Context} {mode : PassMode}
  {gates : List ConditionKind} {parts : List Part} {past : List Notice}

theorem Holds.append {kind : ConditionKind} (h : n.Holds primary ctx past kind)
    (news : List Notice) : n.Holds primary ctx (past ++ news) kind :=
  h.imp_right (List.mem_append_left news)

theorem passed_nil : n.Passed primary ctx [] [] [] :=
  ⟨fun _ h => absurd h List.not_mem_nil, fun _ h => absurd h List.not_mem_nil,
    fun _ _ h => absurd h List.not_mem_nil⟩

/-- An absent condition is passed. -/
theorem Passed.absent (h : n.Passed primary ctx gates parts past) (kind : ConditionKind)
    (hnone : n.check kind primary ctx = none) :
    n.Passed primary ctx (kind :: gates) (.check kind :: parts) past := by
  refine ⟨fun k hk => ?_, fun part hp => ?_, fun k a ha => ?_⟩
  · rcases List.mem_cons.mp hk with rfl | hk
    · exact Or.inl hnone
    · exact h.held k hk
  · exact List.mem_cons_of_mem _ (h.asked part hp)
  · exact ⟨List.mem_cons_of_mem kind (h.answered k a ha).1, (h.answered k a ha).2⟩

theorem Passed.operation (h : n.Passed primary ctx gates parts past) (part : Part) :
    n.Passed primary ctx gates (part :: parts) (past ++ [.asked part]) := by
  refine ⟨fun k hk => (h.held k hk).append _, fun p hp => ?_, fun k a ha => ?_⟩
  · rcases List.mem_append.mp hp with hp | hp
    · exact List.mem_cons_of_mem _ (h.asked p hp)
    · rw [Notice.asked.inj (List.mem_singleton.mp hp)]
      exact List.mem_cons_self
  · rcases List.mem_append.mp ha with ha | ha
    · exact h.answered k a ha
    · cases List.mem_singleton.mp ha

/-- A condition that was found to hold is passed. -/
theorem Passed.checked (h : n.Passed primary ctx gates parts past) (kind : ConditionKind) :
    n.Passed primary ctx (kind :: gates) (.check kind :: parts)
      (past ++ [.asked (.check kind), .answered kind (.ok true)]) := by
  refine ⟨fun k hk => ?_, fun p hp => ?_, fun k a ha => ?_⟩
  · rcases List.mem_cons.mp hk with rfl | hk
    · exact Or.inr (List.mem_append_right _ (List.mem_cons_of_mem _ List.mem_cons_self))
    · exact (h.held k hk).append _
  · rcases List.mem_append.mp hp with hp | hp
    · exact List.mem_cons_of_mem _ (h.asked p hp)
    · rcases List.mem_cons.mp hp with hp | hp
      · rw [Notice.asked.inj hp]
        exact List.mem_cons_self
      · cases List.mem_singleton.mp hp
  · rcases List.mem_append.mp ha with ha | ha
    · exact ⟨List.mem_cons_of_mem kind (h.answered k a ha).1, (h.answered k a ha).2⟩
    · rcases List.mem_cons.mp ha with ha | ha
      · cases ha
      · obtain ⟨rfl, rfl⟩ := Notice.answered.inj (List.mem_singleton.mp ha)
        exact ⟨List.mem_cons_self, rfl⟩

/-- A visit may ask for a part whose conditions it has passed. -/
theorem Passed.licence (h : n.Passed primary ctx gates parts past) (part : Part)
    (needed : List ConditionKind) (hneeded : mode.gates part = some needed)
    (hsubset : needed ⊆ gates) (hnew : part ∉ parts) :
    n.Licence primary ctx mode past (.asked part) :=
  .asked part needed hneeded (fun kind hkind => h.held kind (hsubset hkind))
    fun hasked => hnew (h.asked part hasked)

/-- The first answer to a condition that was asked for may be noticed. -/
theorem Passed.licence_answer (h : n.Passed primary ctx gates parts past) (kind : ConditionKind)
    (hkind : kind ∉ gates) (answer : Except Error Bool) :
    n.Licence primary ctx mode (past ++ [.asked (.check kind)]) (.answered kind answer) := by
  refine .answered kind answer (List.mem_append_right _ (List.mem_singleton_self _)) ?_
  intro a ha
  rcases List.mem_append.mp ha with ha | ha
  · exact hkind (h.answered kind a ha).1
  · cases List.mem_singleton.mp ha

/-- The outcome of a visit that no condition has closed. -/
theorem Passed.fits (h : n.Passed primary ctx gates parts past) (o : NodeOutcome)
    (hdeleted : o.isDeleted = false) (hskipped : o.isSkipped = false)
    (hperformed : o.isSucceeded = true → .asked mode.operation ∈ past) : Fits mode past o := by
  refine ⟨?_, fun ho => ?_, hperformed⟩
  · rw [hdeleted]
    refine iff_of_false Bool.false_ne_true fun ha => ?_
    cases (h.answered _ _ ha).2
  · rw [hdeleted, hskipped] at ho
    simp at ho

/-- The outcome of a visit that a condition has closed. -/
theorem Passed.fits_closed (h : n.Passed primary ctx gates parts past) (kind : ConditionKind)
    (a : Except Error Bool) (o : NodeOutcome)
    (hdeleted : o.isDeleted = true ↔ kind = .reconcilePrecondition ∧ a = .ok false)
    (hsucceeded : o.isSucceeded = false)
    (hspared : o.isDeleted = true ∨ o.isSkipped = true → mode.operation ∉ parts) :
    Fits mode (past ++ [.asked (.check kind), .answered kind a]) o := by
  refine ⟨?_, fun ho hmem => ?_, fun ho => ?_⟩
  · rw [hdeleted, List.mem_append]
    constructor
    · rintro ⟨rfl, rfl⟩
      exact Or.inr (List.mem_cons_of_mem _ List.mem_cons_self)
    · rintro (hold | hnew)
      · cases (h.answered _ _ hold).2
      · rcases List.mem_cons.mp hnew with hnew | hnew
        · cases hnew
        · obtain ⟨hk, ha⟩ := Notice.answered.inj (List.mem_singleton.mp hnew)
          exact ⟨hk.symm, ha.symm⟩
  · rcases List.mem_append.mp hmem with hold | hnew
    · exact hspared ho (h.asked _ hold)
    · rcases List.mem_cons.mp hnew with hnew | hnew
      · exact mode.operation_ne_check kind (Notice.asked.inj hnew)
      · cases List.mem_singleton.mp hnew
  · rw [hsucceeded] at ho
    cases ho

/-- A gate asks for its condition and goes on only where that holds or is absent. -/
theorem narrates_gate (h : n.Passed primary ctx gates parts past) (kind : ConditionKind)
    (needed : List ConditionKind) (hneeded : mode.gates (.check kind) = some needed)
    (hsubset : needed ⊆ gates) (hpart : .check kind ∉ parts) (hkind : kind ∉ gates)
    (operations : Operations) (closed : NodeOutcome)
    (hdeleted : closed.isDeleted = true ↔ kind = .reconcilePrecondition)
    (hsucceeded : closed.isSucceeded = false)
    (hspared : closed.isDeleted = true ∨ closed.isSkipped = true → mode.operation ∉ parts)
    (proceed : Task (I.noticing Notice) Error NodeOutcome) (proceed' : Task I Error NodeOutcome)
    (hproceed : ∀ news, n.Passed primary ctx (kind :: gates) (.check kind :: parts)
      (past ++ news) → proceed.Narrates (n.Licence primary ctx mode) (Fits mode) (past ++ news)
        proceed') :
    (gate (n.announcing.check kind primary ctx) operations closed proceed).Narrates
      (n.Licence primary ctx mode) (Fits mode) past
      (gate (n.check kind primary ctx) operations closed proceed') := by
  have hannouncing : n.announcing.check kind primary ctx = (n.check kind primary ctx).map _ := rfl
  cases hcheck : n.check kind primary ctx with
  | none =>
    rw [hannouncing, hcheck]
    have hall := hproceed []
    rw [List.append_nil] at hall
    exact hall (h.absent kind hcheck)
  | some evaluate =>
    rw [hannouncing, hcheck]
    refine .notice past _ _ _ (h.licence _ needed hneeded hsubset hpart) ?_
    refine Task.narrates_ofAction_bind evaluate _ _ _ fun answer => ?_
    refine .notice _ _ _ _ (h.licence_answer kind hkind answer) ?_
    rw [List.append_assoc, List.singleton_append]
    cases answer with
    | error e =>
      refine .done _ _ (h.fits_closed kind _ _ ?_ rfl fun ho => ?_)
      · exact iff_of_false Bool.false_ne_true fun h => nomatch h.2
      · rcases ho with ho | ho <;> cases ho
    | ok holds =>
      cases holds with
      | false =>
        refine .done _ _ (h.fits_closed kind _ _ ?_ hsucceeded hspared)
        rw [hdeleted]
        exact (and_iff_left rfl).symm
      | true => exact hproceed _ (h.checked kind)

/-- Each part of a reconcile visit is announced once, behind the conditions that it needs. -/
theorem narrates_reconcileVisit (n : Node I) (primary : ManagedObject) (ctx : Context) :
    (n.announcing.reconcileVisit primary ctx).Narrates (n.Licence primary ctx .reconcile)
      (Fits .reconcile) [] (n.reconcileVisit primary ctx) := by
  refine narrates_gate passed_nil .activation [] rfl (List.nil_subset _) List.not_mem_nil
    List.not_mem_nil {} _ (by decide) rfl (fun _ => List.not_mem_nil) _ _ fun first hfirst => ?_
  refine narrates_gate hfirst .reconcilePrecondition [.activation] rfl (List.Subset.refl _)
    (by simp) (by simp) {} _ (by decide) rfl (fun _ => by simp [PassMode.operation]) _ _
    fun second hsecond => ?_
  refine .notice _ _ _ _ (hsecond.licence .reconcile _ rfl (by simp) (by simp)) ?_
  have hasked := hsecond.operation .reconcile
  refine (Task.narrates_lifted _ (n.reconcile primary ctx)).bind _ _ fun now outcome hnow => ?_
  subst hnow
  cases outcome with
  | error e => exact .done _ _ (hasked.fits _ rfl rfl fun ho => nomatch ho)
  | ok operations =>
    refine narrates_gate hasked .ready [.activation, .reconcilePrecondition] rfl (by simp)
      (by simp) (by simp) operations _ (by simp [NodeOutcome.isDeleted]) rfl (fun ho => ?_) _ _
      fun third hthird => ?_
    · rcases ho with ho | ho <;> cases ho
    · refine .done _ _ (hthird.fits _ rfl rfl fun _ => ?_)
      exact List.mem_append_left _ (List.mem_append_right _ (List.mem_singleton_self _))

/-- A cleanup visit asks for the deletion behind its conditions and for no reconcile. -/
theorem narrates_cleanupVisit (n : Node I) (primary : ManagedObject) (ctx : Context) :
    (n.announcing.cleanupVisit primary ctx).Narrates (n.Licence primary ctx .cleanup)
      (Fits .cleanup) [] (n.cleanupVisit primary ctx) := by
  refine narrates_gate passed_nil .activation [] rfl (List.nil_subset _) List.not_mem_nil
    List.not_mem_nil {} _ (by decide) rfl (fun _ => List.not_mem_nil) _ _ fun first hfirst => ?_
  refine narrates_gate hfirst .cleanupReady [.activation] rfl (List.Subset.refl _)
    (by simp) (by simp) {} _ (by decide) rfl (fun _ => by simp [PassMode.operation]) _ _
    fun second hsecond => ?_
  refine .notice _ _ _ _ (hsecond.licence .delete _ rfl (by simp) (by simp)) ?_
  have hasked := hsecond.operation .delete
  refine (Task.narrates_lifted _ (n.delete primary ctx)).bind _ _ fun now outcome hnow => ?_
  subst hnow
  cases outcome with
  | error e => exact .done _ _ (hasked.fits _ rfl rfl fun ho => nomatch ho)
  | ok operations =>
    refine .done _ _ (hasked.fits _ rfl rfl fun _ => ?_)
    exact List.mem_append_right _ (List.mem_singleton_self _)

end

/-- A visit with notices does what the visit does, and gives only notices it has a licence for. -/
theorem narrates_visit (n : Node I) (primary : ManagedObject) (ctx : Context) (mode : PassMode) :
    (n.announcing.visit mode primary ctx).Narrates (n.Licence primary ctx mode) (Fits mode) []
      (n.visit mode primary ctx) := by
  cases mode with
  | reconcile => exact n.narrates_reconcileVisit primary ctx
  | cleanup => exact n.narrates_cleanupVisit primary ctx

end Node
end Reconciliation
