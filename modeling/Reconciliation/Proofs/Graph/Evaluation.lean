import Mathlib.Logic.Function.Basic

/-!
Evaluation of one node after another along an order. If the value of a node depends only on
nodes before it, then the evaluation finds the only assignment in which every node of the order
has the value that follows from the others. Collecting nodes along an order is a case of it.
Sequential passes over workflows are evaluated so, and whatever else gives each node the value
that follows from the others agrees with them.
-/
namespace Reconciliation

variable {β : Type}

/-- Gives each node of a list in turn the value that follows from the values so far. -/
def evaluateAlong (step : (Nat → β) → Nat → β) : (Nat → β) → List Nat → Nat → β
  | f, [] => f
  | f, i :: rest => evaluateAlong step (Function.update f i (step f i)) rest

/-- The value of each node in the list follows from nodes before it. -/
def Grounded (step : (Nat → β) → Nat → β) (order : List Nat) : Prop :=
  ∀ before i after, order = before ++ i :: after →
    ∀ f g : Nat → β, (∀ j ∈ before, f j = g j) → step f i = step g i

theorem evaluateAlong_of_notMem (step : (Nat → β) → Nat → β) (f : Nat → β) (order : List Nat)
    (i : Nat) (hi : i ∉ order) : evaluateAlong step f order i = f i := by
  induction order generalizing f with
  | nil => rfl
  | cons j rest ih =>
    rw [List.mem_cons, not_or] at hi
    unfold evaluateAlong
    rw [ih _ hi.2, Function.update_of_ne hi.1]

/-- Any assignment in which the values follow from each other is the one that evaluation
finds. -/
theorem evaluateAlong_eq (step : (Nat → β) → Nat → β) (order : List Nat)
    (hstep : Grounded step order) (f g : Nat → β)
    (hg : ∀ i ∈ order, g i = step g i) : ∀ i ∈ order, evaluateAlong step f order i = g i := by
  have hsuffix : ∀ before after f, order = before ++ after → (∀ j ∈ before, f j = g j) →
      ∀ i ∈ order, evaluateAlong step f after i = g i := by
    intro before after
    induction after generalizing before with
    | nil =>
      intro f heq hbefore i hi
      rw [heq, List.append_nil] at hi
      exact hbefore i hi
    | cons k after ih =>
      intro f heq hbefore
      have hvalue : step f k = g k := by
        rw [hg k (by rw [heq]; simp)]
        exact hstep before k after heq f g hbefore
      refine ih (before ++ [k]) _ (by rw [heq, List.append_assoc]; rfl) fun j hj => ?_
      by_cases hjk : j = k
      · rw [hjk, Function.update_self, hvalue]
      · rw [Function.update_of_ne hjk]
        exact hbefore j ((List.mem_append.mp hj).resolve_right (by simpa using hjk))
  exact hsuffix [] order f rfl fun j hj => absurd hj List.not_mem_nil

/-- In the result of an evaluation the value of each node follows from the others. -/
theorem evaluateAlong_fixed (step : (Nat → β) → Nat → β) (order : List Nat)
    (hstep : Grounded step order) (hnodup : order.Nodup) (f : Nat → β) :
    ∀ i ∈ order, evaluateAlong step f order i = step (evaluateAlong step f order) i := by
  have hsuffix : ∀ before after f, order = before ++ after → (∀ i ∈ before, f i = step f i) →
      ∀ i ∈ order, evaluateAlong step f after i = step (evaluateAlong step f after) i := by
    intro before after
    induction after generalizing before with
    | nil =>
      intro f heq hbefore i hi
      rw [heq, List.append_nil] at hi
      exact hbefore i hi
    | cons k after ih =>
      intro f heq hbefore
      have hk : k ∉ before := by
        rw [heq, List.nodup_append] at hnodup
        exact fun hmem => hnodup.2.2 k hmem k List.mem_cons_self rfl
      have hkeep : ∀ j ∈ before, Function.update f k (step f k) j = f j := by
        intro j hj
        have hne : j ≠ k := fun hjk => hk (hjk ▸ hj)
        rw [Function.update_of_ne hne]
      refine ih (before ++ [k]) _ (by rw [heq, List.append_assoc]; rfl) fun j hj => ?_
      rcases List.mem_append.mp hj with hj | hj
      · obtain ⟨earlier, later, hsplit⟩ := List.append_of_mem hj
        have horder : order = earlier ++ j :: (later ++ k :: after) := by
          rw [heq, hsplit, List.append_assoc, List.cons_append]
        have hsame : step (Function.update f k (step f k)) j = step f j := by
          refine hstep earlier j _ horder _ _ fun l hl => hkeep l ?_
          rw [hsplit]
          exact List.mem_append_left _ hl
        rw [hkeep j hj, hsame]
        exact hbefore j hj
      · obtain rfl := List.mem_singleton.mp hj
        rw [Function.update_self]
        exact (hstep before j after heq _ _ hkeep).symm
  exact hsuffix [] order f rfl fun j hj => absurd hj List.not_mem_nil

theorem contains_cons_eq_update (i : Nat) (xs : List Nat) :
    (i :: xs).contains = Function.update xs.contains i true := by
  funext j
  by_cases hj : j = i
  · simp [hj]
  · rw [Function.update_of_ne hj, List.contains_cons, beq_false_of_ne hj, Bool.false_or]

theorem contains_concat_eq_update (i : Nat) (xs : List Nat) :
    (xs ++ [i]).contains = Function.update xs.contains i true := by
  funext j
  by_cases hj : j = i
  · simp [hj]
  · rw [Function.update_of_ne hj]
    simp [hj]

theorem contains_eq_update_of_notMem (i : Nat) (xs : List Nat) (hi : i ∉ xs) :
    xs.contains = Function.update xs.contains i false := by
  have hfalse : xs.contains i = false := by simpa using hi
  rw [← hfalse, Function.update_eq_self]

/-- Nodes that are collected along an order, each if the ones so far say so. -/
theorem collect_contains (step : (Nat → Bool) → Nat → Bool) (add : Nat → List Nat → List Nat)
    (hadd : ∀ i xs, (add i xs).contains = Function.update xs.contains i true)
    (collect : List Nat → List Nat → List Nat) (hnil : ∀ xs, collect xs [] = xs)
    (hcons : ∀ xs i rest, collect xs (i :: rest) =
      if step xs.contains i = true then collect (add i xs) rest else collect xs rest)
    (order xs : List Nat) (hnodup : order.Nodup) (hnew : ∀ i ∈ order, i ∉ xs) :
    (collect xs order).contains = evaluateAlong step xs.contains order := by
  induction order generalizing xs with
  | nil => rw [hnil, evaluateAlong]
  | cons i rest ih =>
    rw [List.nodup_cons] at hnodup
    have hrest : ∀ j ∈ rest, j ∉ xs := fun j hj => hnew j (List.mem_cons_of_mem i hj)
    rw [hcons, evaluateAlong]
    cases hstep : step xs.contains i with
    | true =>
      rw [if_pos rfl, ih (add i xs) hnodup.2, hadd]
      intro j hj hmem
      have hne : j ≠ i := fun hji => hnodup.1 (hji ▸ hj)
      rw [← List.contains_iff_mem, hadd, Function.update_of_ne hne, List.contains_iff_mem] at hmem
      exact hrest j hj hmem
    | false =>
      rw [if_neg (by decide), ih xs hnodup.2 hrest,
        ← contains_eq_update_of_notMem i xs (hnew i List.mem_cons_self)]

end Reconciliation
