import Reconciliation.Retry.Policy

/-!
The failures in a bundle. A bundle may hold bundles; its leaves are the failures that are none.
Whether a failure is repeated at once is decided by its leaves: all of them are version conflicts,
and no bundle on the way to them is empty. Bundled failures are never terminal.
-/
namespace Reconciliation

namespace Error

def isBundle : Error → Bool
  | dependents _ => true
  | _ => false

/-- A conflict on one object, not a bundle of conflicts. -/
def isVersionConflict : Error → Bool
  | conflict .. => true
  | _ => false

/-- The failure itself, or one that a bundle in it holds. -/
inductive Within (x : Error) : Error → Prop
  | self : Within x x
  | member (name : String) (e : Error) (failures : List (String × Error))
      (hmem : (name, e) ∈ failures) (h : Within x e) : Within x (.dependents failures)

theorem isConflict_of_plain (e : Error) (h : e.isBundle = false) :
    e.isConflict = e.isVersionConflict := by
  cases e with
  | dependents failures => cases h
  | _ => rfl

theorem allConflicts_iff (failures : List (String × Error)) :
    allConflicts failures = true ↔ ∀ m ∈ failures, m.2.isConflict = true := by
  induction failures with
  | nil => exact iff_of_true rfl fun _ h => absurd h List.not_mem_nil
  | cons m rest ih => rw [allConflicts, Bool.and_eq_true, ih, List.forall_mem_cons]

theorem isConflict_dependents_iff (failures : List (String × Error)) :
    (dependents failures).isConflict = true ↔
      failures ≠ [] ∧ ∀ m ∈ failures, m.2.isConflict = true := by
  rw [isConflict, Bool.and_eq_true, allConflicts_iff]
  simp

/-- All leaves are version conflicts and no bundle is empty. -/
structure LeavesConflict (e : Error) : Prop where
  leaves : ∀ x : Error, x.Within e → x.isBundle = false → x.isVersionConflict = true
  filled : ¬ (dependents []).Within e

theorem LeavesConflict.within {e x : Error} (h : e.LeavesConflict)
    (hx : ∀ y : Error, y.Within x → y.Within e) : x.LeavesConflict :=
  ⟨fun y hy => h.leaves y (hx y hy), fun hempty => h.filled (hx _ hempty)⟩

mutual

/-- The induction is on the failure and, beside it, on the list of a bundle. -/
theorem isConflict_iff_leaves : ∀ e : Error, e.isConflict = true ↔ e.LeavesConflict
  | dependents failures => by
    rw [isConflict_dependents_iff]
    constructor
    · rintro ⟨hne, hall⟩
      have hmembers := (members_conflict_iff failures).mp hall
      refine ⟨fun x hx hplain => ?_, fun hempty => ?_⟩
      · cases hx with
        | self => cases hplain
        | member name e _ hmem h => exact (hmembers (name, e) hmem).leaves x h hplain
      · cases hempty with
        | self => exact hne rfl
        | member name e _ hmem h => exact (hmembers (name, e) hmem).filled h
    · intro h
      refine ⟨fun hnil => h.filled (hnil ▸ .self), (members_conflict_iff failures).mpr ?_⟩
      exact fun m hm => h.within fun y hy => .member m.1 m.2 failures hm hy
  | conflict .. => by
    refine iff_of_true rfl ⟨fun x hx _ => ?_, fun hempty => ?_⟩
    · cases hx
      rfl
    · cases hempty
  | notFound _ | alreadyExists _ | adapter .. | conditionEvaluation .. | reconciler _
  | dispatchPanicked _ | cyclicGraph _ | duplicateNode _ | unknownDependency .. | invalidConfig _
  | configParse _ | fileReadFailed .. | shuttingDown =>
    iff_of_false Bool.false_ne_true fun h => Bool.false_ne_true (h.leaves _ .self rfl)

theorem members_conflict_iff : ∀ failures : List (String × Error),
    (∀ m ∈ failures, m.2.isConflict = true) ↔ ∀ m ∈ failures, m.2.LeavesConflict
  | [] => iff_of_true (fun _ h => absurd h List.not_mem_nil) fun _ h => absurd h List.not_mem_nil
  | (_, e) :: rest => by
    rw [List.forall_mem_cons, List.forall_mem_cons, isConflict_iff_leaves e,
      members_conflict_iff rest]

end

end Error

namespace FailureClass

theorem ofError_eq_conflict_iff (e : Error) : ofError e = .conflict ↔ e.isConflict = true := by
  unfold ofError
  cases e.isConflict <;> cases e.isTerminal <;> simp

theorem ofError_bundle_ne_terminal (failures : List (String × Error)) :
    ofError (.dependents failures) ≠ .terminal := by
  unfold ofError
  cases (Error.dependents failures).isConflict <;> simp [Error.isTerminal]

end FailureClass
end Reconciliation
