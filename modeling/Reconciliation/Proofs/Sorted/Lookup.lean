import Reconciliation.Sorted.Map

/-!
Look-up in a sorted map whose keys are compared lawfully, and in any list of entries. An entry is
found under its key and nothing else is, so a map can be reasoned about through its entries or
through its look-up; in a list that is so where no key stands twice.
-/
namespace Reconciliation

namespace Association
variable {κ : Type u} {α : Type v} [BEq κ]

section Lawful
variable [LawfulBEq κ]

theorem mem_of_lookup (es : List (κ × α)) (k : κ) (a : α) (h : es.lookup k = some a) :
    (k, a) ∈ es := by
  obtain ⟨before, after, heq, _⟩ := List.lookup_eq_some_iff.mp h
  rw [heq]
  exact List.mem_append_right _ List.mem_cons_self

theorem lookup_eq_none_of_notMem (es : List (κ × α)) (k : κ) (h : k ∉ es.map (·.1)) :
    es.lookup k = none := by
  rw [List.lookup_eq_none_iff]
  intro e he
  have hne : k ≠ e.1 := fun hk => h (hk ▸ List.mem_map_of_mem he)
  simpa using hne

theorem lookup_of_mem (es : List (κ × α)) (hnodup : (es.map (·.1)).Nodup) (k : κ) (a : α)
    (h : (k, a) ∈ es) : es.lookup k = some a := by
  obtain ⟨before, after, rfl⟩ := List.append_of_mem h
  rw [List.map_append, List.map_cons, List.nodup_append] at hnodup
  have hbefore : k ∉ before.map (·.1) :=
    fun hk => hnodup.2.2 k hk k List.mem_cons_self rfl
  rw [List.lookup_append, lookup_eq_none_of_notMem before k hbefore, List.lookup_cons_self,
    Option.none_or]

/-- Where no key stands twice, each entry is found under its key. -/
theorem lookup_eq_some_iff (es : List (κ × α)) (hnodup : (es.map (·.1)).Nodup) (k : κ) (a : α) :
    es.lookup k = some a ↔ (k, a) ∈ es :=
  ⟨mem_of_lookup es k a, lookup_of_mem es hnodup k a⟩

/-- Of the entries that are kept, the one under a key is the one that was there before. -/
theorem lookup_filter (es : List (κ × α)) (hnodup : (es.map (·.1)).Nodup) (keep : α → Bool)
    (k : κ) : (es.filter fun e => keep e.2).lookup k = (es.lookup k).filter keep := by
  have hnodup' : ((es.filter fun e => keep e.2).map (·.1)).Nodup :=
    hnodup.sublist (List.filter_sublist.map _)
  ext a
  rw [lookup_eq_some_iff _ hnodup', List.mem_filter, Option.filter_eq_some_iff,
    lookup_eq_some_iff es hnodup]

end Lawful

theorem lookup_map (es : List (κ × α)) (f : α → β) (k : κ) :
    (es.map fun e => (e.1, f e.2)).lookup k = (es.lookup k).map f := by
  induction es with
  | nil => rfl
  | cons e rest ih =>
    rw [List.map_cons, List.lookup_cons, List.lookup_cons, ih]
    cases k == e.1 <;> rfl

/-- All keys of a list with the same value. -/
theorem lookup_same (ks : List κ) (a : α) (k : κ) :
    (ks.map (·, a)).lookup k = if ks.contains k = true then some a else none := by
  induction ks with
  | nil => rfl
  | cons k' rest ih =>
    rw [List.map_cons, List.lookup_cons, List.contains_cons, ih]
    cases k == k' <;> rfl

end Association

namespace SortedMap

variable {κ : Type u} {α : Type v} [Ord κ] [Std.LawfulEqOrd κ]

/-- In a sorted list the search by key finds every entry and nothing else. -/
theorem findEntry_eq_some_iff (l : List (κ × α))
    (hl : l.Pairwise fun a b => compare a.1 b.1 = .lt) (k : κ) (a : α) :
    findEntry k l = some a ↔ (k, a) ∈ l := by
  induction l with
  | nil => simp [findEntry]
  | cons e rest ih =>
    rw [List.pairwise_cons] at hl
    obtain ⟨k', a'⟩ := e
    by_cases hk : compare k k' = .eq
    · obtain rfl : k = k' := Std.LawfulEqOrd.eq_of_compare hk
      have hnot : (k, a) ∉ rest := by
        intro hmem
        have hlt : compare k k = .lt := hl.1 _ hmem
        rw [hk] at hlt
        cases hlt
      simp only [findEntry, hk, if_true, Option.some.injEq, List.mem_cons, Prod.mk.injEq,
        true_and, hnot, or_false]
      exact eq_comm
    · have hne : k ≠ k' := fun h => hk (h ▸ Std.compare_self)
      simp only [findEntry, hk, if_false, List.mem_cons, Prod.mk.injEq, hne, false_and, false_or]
      exact ih hl.2

theorem get?_eq_some_iff (m : SortedMap κ α) (k : κ) (a : α) :
    m.get? k = some a ↔ (k, a) ∈ m.entries :=
  findEntry_eq_some_iff m.entries m.ascending k a

theorem distinct_keys (m : SortedMap κ α) : (m.entries.map (·.1)).Nodup := by
  rw [List.Nodup, List.pairwise_map]
  refine m.ascending.imp ?_
  intro a b hlt heq
  rw [heq, Std.compare_self] at hlt
  cases hlt

theorem nodup_entries (m : SortedMap κ α) : m.entries.Nodup :=
  (List.pairwise_map.mp m.distinct_keys).imp fun hne heq => hne (congrArg Prod.fst heq)

/-- Maps in which the same is found are equal, since their entries stand in one order. -/
theorem eq_of_get?_eq [Std.OrientedOrd κ] (m m' : SortedMap κ α)
    (h : ∀ k, m.get? k = m'.get? k) : m = m' := by
  have hmem : ∀ e, e ∈ m.entries ↔ e ∈ m'.entries := fun e => by
    rw [← m.get?_eq_some_iff e.1 e.2, h, m'.get?_eq_some_iff]
  have hperm := (List.perm_ext_iff_of_nodup m.nodup_entries m'.nodup_entries).mpr hmem
  have hasymm : ∀ a b, a ∈ m.entries → b ∈ m'.entries →
      compare a.1 b.1 = .lt → compare b.1 a.1 = .lt → a = b := by
    intro a b _ _ hab hba
    cases hab.symm.trans (Std.OrientedCmp.gt_of_lt hba)
  have hentries := hperm.eq_of_pairwise hasymm m.ascending m'.ascending
  obtain ⟨entries, hascending⟩ := m
  obtain rfl : entries = m'.entries := hentries
  rfl

theorem get?_filter (m : SortedMap κ α) (p : κ → α → Bool) (k : κ) :
    (m.filter p).get? k = (m.get? k).filter (p k) := by
  ext a
  rw [get?_eq_some_iff, Option.filter_eq_some_iff, get?_eq_some_iff]
  exact List.mem_filter

theorem mem_keys_iff (m : SortedMap κ α) (k : κ) : k ∈ m.keys ↔ m.contains k = true := by
  rw [keys, List.mem_map, contains, Option.isSome_iff_exists]
  constructor
  · rintro ⟨e, he, rfl⟩
    exact ⟨e.2, (m.get?_eq_some_iff e.1 e.2).mpr he⟩
  · rintro ⟨a, ha⟩
    exact ⟨(k, a), (m.get?_eq_some_iff k a).mp ha, rfl⟩

theorem findEntry_map (f : κ → α → β) (k : κ) (l : List (κ × α)) :
    findEntry k (l.map fun e => (e.1, f e.1 e.2)) = (findEntry k l).map (f k) := by
  induction l with
  | nil => rfl
  | cons e rest ih =>
    by_cases hk : compare k e.1 = .eq
    · have hke : k = e.1 := Std.LawfulEqOrd.eq_of_compare hk
      simp [findEntry, hke]
    · simp only [List.map_cons, findEntry, hk, if_false]
      exact ih

theorem get?_map (m : SortedMap κ α) (f : κ → α → β) (k : κ) :
    (m.map f).get? k = (m.get? k).map (f k) :=
  findEntry_map f k m.entries

section Collected
variable {κ : Type u} {α : Type v} [Ord κ] [Std.TransOrd κ] [Std.LawfulEqOrd κ] [BEq κ]
  [LawfulBEq κ]

/-- Of several insertions under one key the last one counts. -/
theorem get?_insertAll (l : List (κ × α)) (m : SortedMap κ α) (k : κ) :
    (l.foldl (fun m e => m.insert e.1 e.2) m).get? k = (l.reverse.lookup k).or (m.get? k) := by
  induction l generalizing m with
  | nil => rfl
  | cons e rest ih =>
    have hinsert : (m.insert e.1 e.2).get? k = ([e].lookup k).or (m.get? k) := by
      rw [get?_insert, List.lookup_cons]
      by_cases hk : k = e.1
      · rw [if_pos (hk ▸ Std.compare_self), hk, BEq.rfl]
        rfl
      · rw [if_neg fun h => hk (Std.LawfulEqOrd.eq_of_compare h), beq_false_of_ne hk]
        rfl
    rw [List.foldl_cons, ih, hinsert, List.reverse_cons, List.lookup_append, Option.or_assoc]

/-- Of several values for one key the last one is found. -/
theorem get?_ofList (l : List (κ × α)) (k : κ) : (ofList l).get? k = l.reverse.lookup k :=
  (get?_insertAll l empty k).trans (Option.or_none)

end Collected
end SortedMap
end Reconciliation
