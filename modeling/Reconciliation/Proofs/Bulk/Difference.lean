import Mathlib.Data.List.Induction
import Reconciliation.Proofs.Bulk.Steps

/-!
A bulk plan is the difference of two maps. It sorts each of their keys into one class, and its
steps, taken in any order, make the desired members out of the actual ones and leave those alone
that agree. One pass over the actual members finds the plan if it takes each of them from the
desired ones.
-/
namespace Reconciliation

namespace BulkStep
variable {R : Type}

/-- What a step leaves under its key. -/
def result : BulkStep R → Option R
  | delete .. => none
  | create _ wanted | update _ _ wanted => some wanted

def applyTo (m : SortedMap String R) : BulkStep R → SortedMap String R
  | delete key _ => m.erase key
  | create key wanted | update key _ wanted => m.insert key wanted

/-- The members after some steps, one after another. -/
def applyAll (steps : List (BulkStep R)) (m : SortedMap String R) : SortedMap String R :=
  steps.foldl applyTo m

theorem get?_applyTo (m : SortedMap String R) (s : BulkStep R) (key : String) :
    (applyTo m s).get? key = if key = s.key then s.result else m.get? key := by
  have hcompare : compare key s.key = .eq ↔ key = s.key := Std.LawfulEqOrd.compare_eq_iff_eq
  cases s with
  | delete k a => exact (m.get?_erase k key).trans (if_congr hcompare rfl rfl)
  | create k wanted => exact (m.get?_insert k wanted key).trans (if_congr hcompare rfl rfl)
  | update k a wanted => exact (m.get?_insert k wanted key).trans (if_congr hcompare rfl rfl)

theorem get?_applyAll_of_not_mem (steps : List (BulkStep R)) (m : SortedMap String R)
    {key : String} (h : key ∉ steps.map (·.key)) : (applyAll steps m).get? key = m.get? key := by
  induction steps generalizing m with
  | nil => rfl
  | cons s rest ih =>
    rw [List.map_cons, List.mem_cons, not_or] at h
    obtain ⟨hfirst, hrest⟩ := h
    calc (applyAll (s :: rest) m).get? key
      _ = (applyTo m s).get? key := ih (applyTo m s) hrest
      _ = m.get? key := by rw [get?_applyTo, if_neg hfirst]

theorem get?_applyAll_of_mem (steps : List (BulkStep R)) (m : SortedMap String R)
    (hdistinct : (steps.map (·.key)).Nodup) {s : BulkStep R} (hs : s ∈ steps) :
    (applyAll steps m).get? s.key = s.result := by
  induction steps generalizing m with
  | nil => cases hs
  | cons first rest ih =>
    obtain ⟨hfirst, hrest⟩ := List.nodup_cons.mp hdistinct
    rcases List.mem_cons.mp hs with rfl | hs
    · calc (applyAll (s :: rest) m).get? s.key
        _ = (applyTo m s).get? s.key := get?_applyAll_of_not_mem rest _ hfirst
        _ = s.result := by rw [get?_applyTo, if_pos rfl]
    · exact ih (applyTo m first) hrest hs

end BulkStep

namespace BulkPlan
variable {R : Type}

/-- The desired members, but those that agree with their actual state stay as they are. -/
def goal (agrees : R → R → Bool) (actual desired : SortedMap String R) : SortedMap String R :=
  desired.map fun key wanted =>
    match actual.get? key with
    | some a => if agrees a wanted then a else wanted
    | none => wanted

theorem keys_eq_map_steps (p : BulkPlan R) : p.keys = p.steps.map (·.key) := by
  unfold keys steps
  rw [List.map_append, List.map_append, List.map_map, List.map_map, List.map_map]
  rfl

theorem isNoop_iff (p : BulkPlan R) : p.isNoop = true ↔ p.steps = [] := by
  simp [isNoop, steps, and_left_comm, and_comm]

/-- A plan that sorts every key of two maps into one class, each class in ascending order. -/
structure Classifies (agrees : R → R → Bool) (actual desired : SortedMap String R)
    (p : BulkPlan R) : Prop where
  mem_create : ∀ key b, (key, b) ∈ p.create ↔ actual.get? key = none ∧ desired.get? key = some b
  mem_delete : ∀ key a, (key, a) ∈ p.delete ↔ actual.get? key = some a ∧ desired.get? key = none
  mem_update : ∀ key a b, (key, a, b) ∈ p.update ↔
    actual.get? key = some a ∧ desired.get? key = some b ∧ agrees a b = false
  mem_unchanged : ∀ key, key ∈ p.unchanged ↔
    ∃ a b, actual.get? key = some a ∧ desired.get? key = some b ∧ agrees a b = true
  distinct : (p.keys ++ p.unchanged).Nodup
  covers : ∀ key, key ∈ p.keys ++ p.unchanged ↔
    actual.contains key = true ∨ desired.contains key = true
  ascending_create : (p.create.map (·.1)).Pairwise (compare · · = .lt)
  ascending_delete : (p.delete.map (·.1)).Pairwise (compare · · = .lt)
  ascending_update : (p.update.map (·.1)).Pairwise (compare · · = .lt)
  ascending_unchanged : p.unchanged.Pairwise (compare · · = .lt)

section Between
variable (agrees : R → R → Bool) (actual desired : SortedMap String R)

/-- Unchanged are the keys of members that are wanted and agree. -/
theorem mem_unchanged_between_iff (key : String) :
    key ∈ (between agrees actual desired).unchanged ↔
      ∃ a b, actual.get? key = some a ∧ desired.get? key = some b ∧ agrees a b = true := by
  unfold between
  rw [List.mem_filterMap]
  constructor
  · rintro ⟨⟨key', a⟩, hentry, heq⟩
    rw [← actual.get?_eq_some_iff] at hentry
    dsimp only at heq
    split at heq
    · rename_i wanted hwanted
      split at heq
      · rename_i hagrees
        cases heq
        exact ⟨a, wanted, hentry, hwanted, hagrees⟩
      · cases heq
    · cases heq
  · rintro ⟨a, b, hactual, hdesired, hagrees⟩
    refine ⟨(key, a), (actual.get?_eq_some_iff key a).mp hactual, ?_⟩
    dsimp only
    rw [hdesired]
    dsimp only
    rw [hagrees]
    rfl

/-- Keys stay in order where only some of them are kept. -/
theorem ascending_filterMap {β : Type} (m : SortedMap String R) (f : String × R → Option β)
    (key : β → String) (hkey : ∀ e b, f e = some b → key b = e.1) :
    ((m.entries.filterMap f).map key).Pairwise (compare · · = .lt) := by
  rw [List.pairwise_map]
  refine m.ascending.filterMap f fun e e' hlt b hb b' hb' => ?_
  rw [hkey e b hb, hkey e' b' hb']
  exact hlt

variable {agrees actual desired}

/-- Where a key stands between two maps: in neither, in need of a step, or agreed on. -/
inductive KeyClass (agrees : R → R → Bool) (actual desired : SortedMap String R) (key : String) :
    Prop
  | absent (hactual : actual.get? key = none) (hdesired : desired.get? key = none) :
      KeyClass agrees actual desired key
  | bridged (s : BulkStep R) (hs : Bridges agrees actual desired s) (hkey : s.key = key) :
      KeyClass agrees actual desired key
  | agreed (a b : R) (hactual : actual.get? key = some a) (hdesired : desired.get? key = some b)
      (hagrees : agrees a b = true) : KeyClass agrees actual desired key

theorem keyClass (agrees : R → R → Bool) (actual desired : SortedMap String R) (key : String) :
    KeyClass agrees actual desired key := by
  cases ha : actual.get? key with
  | none =>
    cases hb : desired.get? key with
    | none => exact .absent ha hb
    | some b => exact .bridged _ (.create key b ha hb) rfl
  | some a =>
    cases hb : desired.get? key with
    | none => exact .bridged _ (.delete key a ha hb) rfl
    | some b =>
      cases hagrees : agrees a b with
      | true => exact .agreed a b ha hb hagrees
      | false => exact .bridged _ (.update key a b ha hb hagrees) rfl

theorem Bridges.key_not_unchanged {s : BulkStep R} (h : Bridges agrees actual desired s) :
    s.key ∉ (between agrees actual desired).unchanged := by
  rw [mem_unchanged_between_iff]
  rintro ⟨a, b, ha, hb, hagrees⟩
  cases h with
  | delete key _ _ hdesired => cases hdesired.symm.trans hb
  | create key _ hactual _ => cases hactual.symm.trans ha
  | update key _ _ hactual hdesired hdiffer =>
    cases hactual.symm.trans ha
    cases hdesired.symm.trans hb
    cases hdiffer.symm.trans hagrees

/-- The goal has what the step for a key is to leave there. -/
theorem Bridges.get?_goal {s : BulkStep R} (h : Bridges agrees actual desired s) :
    (goal agrees actual desired).get? s.key = s.result := by
  unfold goal
  rw [SortedMap.get?_map]
  cases h with
  | delete key a hactual hdesired => rw [BulkStep.key, hdesired]; rfl
  | create key b hactual hdesired =>
    rw [BulkStep.key, hdesired, Option.map_some, hactual]
    rfl
  | update key a b hactual hdesired hdiffer =>
    rw [BulkStep.key, hdesired, Option.map_some, hactual]
    simp only [hdiffer, Bool.false_eq_true, if_false, BulkStep.result]

/-- A key of no step has what it should have already. -/
theorem get?_goal_of_idle (key : String)
    (hidle : ∀ s, Bridges agrees actual desired s → s.key ≠ key) :
    (goal agrees actual desired).get? key = actual.get? key := by
  unfold goal
  rw [SortedMap.get?_map]
  cases keyClass agrees actual desired key with
  | absent hactual hdesired => rw [hactual, hdesired]; rfl
  | bridged s hs hkey => exact absurd hkey (hidle s hs)
  | agreed a b hactual hdesired hagrees =>
    rw [hactual, hdesired]
    simp only [Option.map_some, hagrees, if_true]

/-- The steps make the desired members out of the actual ones, whatever their order. -/
theorem applyAll_between (order : List (BulkStep R))
    (horder : order.Perm (between agrees actual desired).steps) :
    BulkStep.applyAll order actual = goal agrees actual desired := by
  have hmem : ∀ s, s ∈ order ↔ Bridges agrees actual desired s := fun s =>
    horder.mem_iff.trans (mem_steps_between_iff agrees actual desired s)
  have hdistinct : (order.map (·.key)).Nodup :=
    (horder.map _).nodup_iff.mpr (nodup_keys_between agrees actual desired)
  -- At most one step touches a key, so the others before and after it do not matter.
  refine SortedMap.eq_of_get?_eq _ _ fun key => ?_
  by_cases hkey : key ∈ order.map (·.key)
  · obtain ⟨s, hs, rfl⟩ := List.mem_map.mp hkey
    rw [BulkStep.get?_applyAll_of_mem order actual hdistinct hs, ((hmem s).mp hs).get?_goal]
  · have hidle : ∀ s, Bridges agrees actual desired s → s.key ≠ key := fun s hs heq =>
      hkey (List.mem_map.mpr ⟨s, (hmem s).mpr hs, heq⟩)
    rw [BulkStep.get?_applyAll_of_not_mem order actual hkey, get?_goal_of_idle key hidle]

/-- There is nothing to do just where both maps have the same keys and agree on them. -/
theorem isNoop_between_iff :
    (between agrees actual desired).isNoop = true ↔
      (∀ key, actual.contains key = desired.contains key) ∧
      ∀ key a b, actual.get? key = some a → desired.get? key = some b → agrees a b = true := by
  -- The plan is empty if and only if no step bridges the two maps.
  rw [isNoop_iff, List.eq_nil_iff_forall_not_mem]
  simp only [mem_steps_between_iff]
  constructor
  · intro hnone
    refine ⟨fun key => ?_, fun key a b ha hb => ?_⟩
    · unfold SortedMap.contains
      cases keyClass agrees actual desired key with
      | absent hactual hdesired => rw [hactual, hdesired]
      | bridged s hs _ => exact absurd hs (hnone s)
      | agreed a b hactual hdesired _ => rw [hactual, hdesired]; rfl
    · by_contra hdiffer
      exact hnone _ (.update key a b ha hb (Bool.eq_false_iff.mpr hdiffer))
  · rintro ⟨hkeys, hagrees⟩ s hs
    cases hs with
    | delete key a hactual hdesired =>
      have hkey := hkeys key
      rw [SortedMap.contains, SortedMap.contains, hactual, hdesired] at hkey
      cases hkey
    | create key b hactual hdesired =>
      have hkey := hkeys key
      rw [SortedMap.contains, SortedMap.contains, hactual, hdesired] at hkey
      cases hkey
    | update key a b hactual hdesired hdiffer =>
      cases hdiffer.symm.trans (hagrees key a b hactual hdesired)

/-- Nothing is left to do once the desired members are there. -/
theorem isNoop_between_goal (hrefl : ∀ r, agrees r r = true) :
    (between agrees (goal agrees actual desired) desired).isNoop = true := by
  have hget : ∀ key, (goal agrees actual desired).get? key = _ := desired.get?_map _
  rw [isNoop_between_iff]
  refine ⟨fun key => ?_, fun key a b ha hb => ?_⟩
  · rw [SortedMap.contains, hget, Option.isSome_map]
    rfl
  · rw [hget, hb, Option.map_some] at ha
    obtain rfl := Option.some.inj ha
    split
    · split
      · assumption
      · exact hrefl b
    · exact hrefl b

theorem mem_keys_between_iff (key : String) :
    key ∈ (between agrees actual desired).keys ↔
      ∃ s, Bridges agrees actual desired s ∧ s.key = key := by
  rw [keys_eq_map_steps, List.mem_map]
  simp only [mem_steps_between_iff]

/-- Each key of the two maps needs a step or is unchanged. -/
theorem mem_classes_between_iff (key : String) :
    key ∈ (between agrees actual desired).keys ++ (between agrees actual desired).unchanged ↔
      actual.contains key = true ∨ desired.contains key = true := by
  rw [List.mem_append, mem_keys_between_iff, mem_unchanged_between_iff, SortedMap.contains,
    SortedMap.contains, Option.isSome_iff_exists, Option.isSome_iff_exists]
  constructor
  · rintro (⟨s, hs, rfl⟩ | ⟨a, _, ha, _⟩)
    · cases hs with
      | delete key a hactual _ => exact Or.inl ⟨a, hactual⟩
      | create key b _ hdesired => exact Or.inr ⟨b, hdesired⟩
      | update key a _ hactual _ _ => exact Or.inl ⟨a, hactual⟩
    · exact Or.inl ⟨a, ha⟩
  · intro hsome
    cases keyClass agrees actual desired key with
    | absent hactual hdesired =>
      rcases hsome with ⟨_, ha⟩ | ⟨_, hb⟩
      · cases hactual.symm.trans ha
      · cases hdesired.symm.trans hb
    | bridged s hs hkey => exact Or.inl ⟨s, hs, hkey⟩
    | agreed a b hactual hdesired hagrees => exact Or.inr ⟨a, b, hactual, hdesired, hagrees⟩

theorem ascending_unchanged_between :
    (between agrees actual desired).unchanged.Pairwise (compare · · = .lt) := by
  have hkey := ascending_filterMap actual (fun e => match desired.get? e.1 with
    | some wanted => if agrees e.2 wanted then some e.1 else none
    | none => none) id fun e k hk => by grind
  rwa [List.map_id] at hkey

theorem classifies_between (agrees : R → R → Bool) (actual desired : SortedMap String R) :
    Classifies agrees actual desired (between agrees actual desired) where
  mem_create key b := (mem_filter_missing_iff desired actual (key, b)).trans and_comm
  mem_delete key a := mem_filter_missing_iff actual desired (key, a)
  mem_update := mem_update_between_iff agrees actual desired
  mem_unchanged := mem_unchanged_between_iff agrees actual desired
  distinct := by
    refine List.Nodup.append ?_ (ascending_unchanged_between.imp fun hlt heq => ?_) ?_
    · rw [keys_eq_map_steps]
      exact nodup_keys_between agrees actual desired
    · rw [heq, Std.compare_self] at hlt
      cases hlt
    · intro key hkey
      obtain ⟨s, hs, rfl⟩ := (mem_keys_between_iff key).mp hkey
      exact hs.key_not_unchanged
  covers := mem_classes_between_iff
  ascending_create := List.pairwise_map.mpr (desired.ascending.filter _)
  ascending_delete := List.pairwise_map.mpr (actual.ascending.filter _)
  ascending_update := ascending_filterMap actual _ (fun u : String × R × R => u.1)
    fun e u hu => by grind
  ascending_unchanged := ascending_unchanged_between

/-- The plan sorts every key into its class. Its steps, in any order, leave exactly the desired
members, those that agreed as they were. It is empty exactly if the maps have the same keys and
agree on them, and after its steps no other plan is needed. -/
theorem between_exact (agrees : R → R → Bool) (actual desired : SortedMap String R) :
    Classifies agrees actual desired (between agrees actual desired) ∧
    ((between agrees actual desired).isNoop = true ↔
      (∀ key, actual.contains key = desired.contains key) ∧
      ∀ key a b, actual.get? key = some a → desired.get? key = some b → agrees a b = true) ∧
    ∀ order : List (BulkStep R), order.Perm (between agrees actual desired).steps →
      BulkStep.applyAll order actual = goal agrees actual desired ∧
      ((∀ r, agrees r r = true) →
        (between agrees (BulkStep.applyAll order actual) desired).isNoop = true) := by
  refine ⟨classifies_between agrees actual desired, isNoop_between_iff, fun order horder => ?_⟩
  have hgoal := applyAll_between order horder
  exact ⟨hgoal, fun hrefl => hgoal ▸ isNoop_between_goal hrefl⟩

/-- The steps are taken in the reverse of their order. -/
theorem between_exact_reversed :
    let actual := SortedMap.ofList [("a", 1), ("b", 1), ("c", 1)]
    let desired := SortedMap.ofList [("b", 1), ("c", 2), ("d", 1)]
    let p := between (· == ·) actual desired
    p.unchanged = ["b"] ∧ BulkStep.applyAll p.steps.reverse actual = desired ∧
      (between (· == ·) (BulkStep.applyAll p.steps.reverse actual) desired).isNoop = true := by
  intro actual desired p
  obtain ⟨_, _, hsteps⟩ := between_exact (· == ·) actual desired
  obtain ⟨hgoal, hnoop⟩ := hsteps p.steps.reverse p.steps.reverse_perm
  have hdesired : goal (· == ·) actual desired = desired := by decide
  exact ⟨by decide, hgoal.trans hdesired, hnoop fun r => BEq.rfl⟩

end Between

section Run
variable {I : Interface} {σ : Type} {answer : (c : I.Call) → σ → I.Reply c × σ}

/-- Writes that succeed and do to the members what their steps say. -/
structure Faithful (w : BulkWrites I R) (answer : (c : I.Call) → σ → I.Reply c × σ)
    (members : σ → SortedMap String R) : Prop where
  succeeds : ∀ (s : BulkStep R) (x : σ), ((s.perform w).run answer x).1 = .ok ()
  effect : ∀ (s : BulkStep R) (x : σ),
    members ((s.perform w).run answer x).2 = BulkStep.applyTo (members x) s

/-- The calls of an environment that is nothing but the members. -/
def memberCalls (R : Type) : Interface := ⟨BulkStep R, fun _ => Except Error Unit⟩

def memberWrites (R : Type) : BulkWrites (memberCalls R) R where
  create key wanted := .call (BulkStep.create key wanted) .done
  update key actual wanted := .call (BulkStep.update key actual wanted) .done
  delete key actual := .call (BulkStep.delete key actual) .done

theorem faithful_memberWrites (R : Type) :
    Faithful (memberWrites R) (fun s m => (.ok (), BulkStep.applyTo m s)) id where
  succeeds s _ := by cases s <;> rfl
  effect s _ := by cases s <;> rfl

/-- On members that can be written to at will, a group of steps does what the steps do one after
another. -/
theorem Faithful.runGroup {w : BulkWrites I R} {members : σ → SortedMap String R}
    (hw : Faithful w answer members) (steps : List (BulkStep R)) (x : σ) :
    (∀ r ∈ (Task.runGroup answer (steps.map (·.perform w)) x).1, r = .ok ()) ∧
      members (Task.runGroup answer (steps.map (·.perform w)) x).2 =
        BulkStep.applyAll steps (members x) := by
  induction steps generalizing x with
  | nil => exact ⟨nofun, rfl⟩
  | cons s rest ih =>
    obtain ⟨hok, hmembers⟩ := ih ((s.perform w).run answer x).2
    refine ⟨List.forall_mem_cons.mpr ⟨hw.succeeds s x, hok⟩, ?_⟩
    rw [hw.effect] at hmembers
    exact hmembers

/-- A plan that is carried out by such writes succeeds and leaves the desired members. -/
theorem Faithful.run_between {w : BulkWrites I R} {members : σ → SortedMap String R}
    (hw : Faithful w answer members) (name : String) (agrees : R → R → Bool)
    (desired : SortedMap String R) (x : σ) :
    ∃ x', ((between agrees (members x) desired).apply name w).run answer x =
        (.ok (between agrees (members x) desired).operations, x') ∧
      members x' = goal agrees (members x) desired := by
  obtain ⟨hok, hmembers⟩ := hw.runGroup (between agrees (members x) desired).steps x
  exact ⟨_, run_apply name w _ _ rfl hok, hmembers.trans (applyAll_between _ (.refl _))⟩

end Run

section Sweep
variable (agrees : R → R → Bool) (actual desired : SortedMap String R)

/-- The next actual member takes its counterpart from the desired ones that are left. -/
def sweepNext (acc : BulkPlan R × SortedMap String R) (e : String × R) :
    BulkPlan R × SortedMap String R :=
  match acc.2.get? e.1 with
  | none => ({ acc.1 with delete := acc.1.delete ++ [e] }, acc.2)
  | some wanted =>
    if agrees e.2 wanted then
      ({ acc.1 with unchanged := acc.1.unchanged ++ [e.1] }, acc.2.erase e.1)
    else ({ acc.1 with update := acc.1.update ++ [(e.1, e.2, wanted)] }, acc.2.erase e.1)

/-- One pass over the actual members; what is left of the desired ones is created. -/
def sweep : BulkPlan R :=
  let (p, left) := actual.entries.foldl (sweepNext agrees) (⟨[], [], [], []⟩, desired)
  { p with create := left.entries }

/-- What a pass has found among the first members. -/
structure Swept (seen : List (String × R)) (acc : BulkPlan R × SortedMap String R) : Prop where
  update : acc.1.update = seen.filterMap fun e =>
    match desired.get? e.1 with
    | some wanted => if agrees e.2 wanted then none else some (e.1, e.2, wanted)
    | none => none
  delete : acc.1.delete = seen.filter fun e => !desired.contains e.1
  unchanged : acc.1.unchanged = seen.filterMap fun e =>
    match desired.get? e.1 with
    | some wanted => if agrees e.2 wanted then some e.1 else none
    | none => none
  left : ∀ key, acc.2.get? key = if key ∈ seen.map (·.1) then none else desired.get? key

variable {agrees actual desired}

/-- What is left is found as before, but under the key that was just seen. -/
theorem Swept.left_concat {seen : List (String × R)} {acc : BulkPlan R × SortedMap String R}
    (h : Swept agrees desired seen acc) (e : String × R) (left : SortedMap String R)
    (hleft : ∀ key, left.get? key = if key = e.1 then none else acc.2.get? key) (key : String) :
    left.get? key = if key ∈ (seen ++ [e]).map (·.1) then none else desired.get? key := by
  rw [hleft, h.left, List.map_append, List.map_singleton]
  by_cases hkey : key = e.1
  · rw [if_pos hkey, if_pos (hkey ▸ List.mem_append_right _ (List.mem_singleton_self _))]
  · have hmem : key ∈ seen.map (·.1) ++ [e.1] ↔ key ∈ seen.map (·.1) := by
      rw [List.mem_append, List.mem_singleton, or_iff_left hkey]
    rw [if_neg hkey, if_congr hmem rfl rfl]

/-- Each actual member is put into its class and taken from the desired ones. -/
theorem Swept.next {seen : List (String × R)} {acc : BulkPlan R × SortedMap String R}
    (h : Swept agrees desired seen acc) (e : String × R) (hnew : e.1 ∉ seen.map (·.1)) :
    Swept agrees desired (seen ++ [e]) (sweepNext agrees acc e) := by
  have hfound : acc.2.get? e.1 = desired.get? e.1 := (h.left e.1).trans (if_neg hnew)
  have herase : ∀ key, (acc.2.erase e.1).get? key = if key = e.1 then none else acc.2.get? key :=
    fun key => (acc.2.get?_erase e.1 key).trans
      (if_congr Std.LawfulEqOrd.compare_eq_iff_eq rfl rfl)
  unfold sweepNext
  cases hdesired : desired.get? e.1 with
  | none =>
    rw [hdesired] at hfound
    rw [hfound]
    have hleft : ∀ key, acc.2.get? key = if key = e.1 then none else acc.2.get? key := by
      intro key
      split
      · rename_i hkey
        rw [hkey, hfound]
      · rfl
    exact
      { update := by simp [h.update, hdesired]
        delete := by simp [h.delete, hdesired, SortedMap.contains]
        unchanged := by simp [h.unchanged, hdesired]
        left := h.left_concat e acc.2 hleft }
  | some wanted =>
    rw [hfound, hdesired]
    dsimp only
    cases hagrees : agrees e.2 wanted with
    | true =>
      exact
        { update := by simp [h.update, hdesired, hagrees]
          delete := by simp [h.delete, hdesired, SortedMap.contains]
          unchanged := by simp [h.unchanged, hdesired, hagrees]
          left := h.left_concat e _ herase }
    | false =>
      exact
        { update := by simp [h.update, hdesired, hagrees]
          delete := by simp [h.delete, hdesired, SortedMap.contains]
          unchanged := by simp [h.unchanged, hdesired, hagrees]
          left := h.left_concat e _ herase }

/-- So the sweep has found the plan when it has passed all actual members. -/
theorem swept_foldl (agrees : R → R → Bool) (desired : SortedMap String R)
    (l : List (String × R)) (hdistinct : (l.map (·.1)).Nodup) :
    Swept agrees desired l (l.foldl (sweepNext agrees) (⟨[], [], [], []⟩, desired)) := by
  -- From the end of the list, since the invariant speaks of the members seen so far.
  induction l using List.reverseRecOn with
  | nil => exact ⟨rfl, rfl, rfl, fun _ => rfl⟩
  | append_singleton seen e ih =>
    rw [List.map_append, List.nodup_append] at hdistinct
    obtain ⟨hseen, _, hnew⟩ := hdistinct
    rw [List.foldl_concat]
    refine (ih hseen).next e fun hmem => ?_
    exact hnew e.1 hmem e.1 (List.mem_singleton_self _) rfl

/-- Those that are left are the desired members that are not there. -/
theorem Swept.entries_left {acc : BulkPlan R × SortedMap String R}
    (h : Swept agrees desired actual.entries acc) :
    acc.2.entries = desired.entries.filter fun e => !actual.contains e.1 := by
  have hleft : acc.2 = desired.filter fun key _ => !actual.contains key := by
    refine SortedMap.eq_of_get?_eq _ _ fun key => ?_
    have hseen : key ∈ actual.entries.map (·.1) ↔ actual.contains key = true :=
      actual.mem_keys_iff key
    rw [h.left, SortedMap.get?_filter, if_congr hseen rfl rfl]
    cases actual.contains key <;> cases desired.get? key <;> rfl
  rw [hleft]
  rfl

/-- The pass finds the difference. -/
theorem sweep_eq_between : sweep agrees actual desired = between agrees actual desired := by
  have hswept := swept_foldl agrees desired actual.entries actual.distinct_keys
  unfold sweep between
  rw [BulkPlan.mk.injEq]
  exact ⟨hswept.entries_left, hswept.update, hswept.delete, hswept.unchanged⟩

end Sweep
end BulkPlan
end Reconciliation
