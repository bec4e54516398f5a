/-!
Finite maps and sets kept in ascending order of their keys.

A map is its list of entries together with the proof that the keys ascend strictly, so
equal contents are equal values. Main statements: `get?_insert` and `get?_erase`.
-/
namespace Reconciliation

/-- A finite map as a list of entries whose keys ascend strictly. -/
structure SortedMap (κ : Type u) (α : Type v) [Ord κ] where
  entries : List (κ × α)
  ascending : entries.Pairwise fun a b => compare a.1 b.1 = .lt

namespace SortedMap

section Entries
variable {κ : Type u} {α : Type v} [Ord κ]

/-- Puts an entry at its place, over an entry of the same key. -/
def insertEntry (k : κ) (a : α) : List (κ × α) → List (κ × α)
  | [] => [(k, a)]
  | e :: rest =>
    match compare k e.1 with
    | .lt => (k, a) :: e :: rest
    | .eq => (k, a) :: rest
    | .gt => e :: insertEntry k a rest

def findEntry (k : κ) : List (κ × α) → Option α
  | [] => none
  | e :: rest => if compare k e.1 = .eq then some e.2 else findEntry k rest

theorem mem_insertEntry {k : κ} {a : α} {l : List (κ × α)} {x : κ × α}
    (h : x ∈ insertEntry k a l) : x = (k, a) ∨ x ∈ l := by
  induction l with
  | nil => simpa [insertEntry] using h
  | cons e rest ih =>
    simp only [insertEntry] at h
    split at h <;> simp only [List.mem_cons] at h ⊢ <;> grind

end Entries

variable {κ : Type u} {α : Type v} [Ord κ] [Std.TransOrd κ]

theorem pairwise_insertEntry (k : κ) (a : α) {l : List (κ × α)}
    (h : l.Pairwise fun x y => compare x.1 y.1 = .lt) :
    (insertEntry k a l).Pairwise fun x y => compare x.1 y.1 = .lt := by
  induction l with
  | nil => simp [insertEntry]
  | cons e rest ih =>
    rw [List.pairwise_cons] at h
    simp only [insertEntry]
    split <;> rename_i hk
    · refine List.pairwise_cons.2 ⟨fun x hx => ?_, List.pairwise_cons.2 h⟩
      rcases List.mem_cons.1 hx with rfl | hx
      · exact hk
      · exact Std.TransCmp.lt_trans hk (h.1 x hx)
    · refine List.pairwise_cons.2 ⟨fun x hx => ?_, h.2⟩
      rw [Std.TransCmp.congr_left hk]
      exact h.1 x hx
    · refine List.pairwise_cons.2 ⟨fun x hx => ?_, ih h.2⟩
      rcases mem_insertEntry hx with rfl | hx
      · exact Std.OrientedCmp.gt_iff_lt.1 hk
      · exact h.1 x hx

def empty : SortedMap κ α := ⟨[], .nil⟩

instance : EmptyCollection (SortedMap κ α) := ⟨empty⟩

instance : Inhabited (SortedMap κ α) := ⟨empty⟩

instance [DecidableEq κ] [DecidableEq α] : DecidableEq (SortedMap κ α) := fun a b =>
  decidable_of_iff (a.entries = b.entries) (by cases a; cases b; simp)

def get? (m : SortedMap κ α) (k : κ) : Option α := findEntry k m.entries

def contains (m : SortedMap κ α) (k : κ) : Bool := (m.get? k).isSome

def insert (m : SortedMap κ α) (k : κ) (a : α) : SortedMap κ α :=
  ⟨insertEntry k a m.entries, pairwise_insertEntry k a m.ascending⟩

def filter (m : SortedMap κ α) (p : κ → α → Bool) : SortedMap κ α :=
  ⟨m.entries.filter fun e => p e.1 e.2, m.ascending.filter _⟩

def erase (m : SortedMap κ α) (k : κ) : SortedMap κ α :=
  m.filter fun k' _ => compare k k' != .eq

def map (m : SortedMap κ α) (f : κ → α → β) : SortedMap κ β :=
  ⟨m.entries.map fun e => (e.1, f e.1 e.2), by
    rw [List.pairwise_map]; exact m.ascending⟩

def keys (m : SortedMap κ α) : List κ := m.entries.map (·.1)

def values (m : SortedMap κ α) : List α := m.entries.map (·.2)

def size (m : SortedMap κ α) : Nat := m.entries.length

def isEmpty (m : SortedMap κ α) : Bool := m.entries.isEmpty

/-- The last entry of a key counts. -/
def ofList (l : List (κ × α)) : SortedMap κ α :=
  l.foldl (fun m e => m.insert e.1 e.2) empty

def update (m : SortedMap κ α) (k : κ) (f : Option α → Option α) : SortedMap κ α :=
  match f (m.get? k) with
  | some a => m.insert k a
  | none => m.erase k

theorem findEntry_insertEntry (k : κ) (a : α) (k' : κ) (l : List (κ × α)) :
    findEntry k' (insertEntry k a l) =
      if compare k' k = .eq then some a else findEntry k' l := by
  induction l with
  | nil => simp [insertEntry, findEntry]
  | cons e rest ih =>
    simp only [insertEntry]
    split <;> rename_i hk
    · simp [findEntry]
    · simp only [findEntry]
      rw [Std.TransCmp.congr_right hk]
      split <;> rfl
    · simp only [findEntry, ih]
      by_cases h : compare k' k = .eq
      · simp [h, Std.TransCmp.congr_left h, hk]
      · simp [h]

theorem get?_insert (m : SortedMap κ α) (k : κ) (a : α) (k' : κ) :
    (m.insert k a).get? k' = if compare k' k = .eq then some a else m.get? k' :=
  findEntry_insertEntry k a k' m.entries

theorem findEntry_filter_ne (k k' : κ) (l : List (κ × α)) :
    findEntry k' (l.filter fun e => compare k e.1 != .eq) =
      if compare k' k = .eq then none else findEntry k' l := by
  induction l with
  | nil => simp [findEntry]
  | cons e rest ih =>
    by_cases hk : compare k e.1 = .eq
    · simp only [hk, List.filter_cons, bne_self_eq_false, Bool.false_eq_true, if_false, ih]
      simp only [findEntry, Std.TransCmp.congr_right (a := k') hk]
      grind
    · simp only [List.filter_cons, bne_iff_ne, ne_eq, hk, not_false_eq_true, if_true, findEntry,
        ih]
      by_cases h : compare k' k = .eq
      · simp [h, Std.TransCmp.congr_left h, hk]
      · simp [h]

theorem get?_erase (m : SortedMap κ α) (k k' : κ) :
    (m.erase k).get? k' = if compare k' k = .eq then none else m.get? k' :=
  findEntry_filter_ne k k' m.entries

end SortedMap

/-- A finite set as a map to the one value there is. -/
abbrev SortedSet (κ : Type u) [Ord κ] := SortedMap κ Unit

namespace SortedSet
variable {κ : Type u} [Ord κ] [Std.TransOrd κ]

def add (s : SortedSet κ) (k : κ) : SortedSet κ := SortedMap.insert s k ()

def toList (s : SortedSet κ) : List κ := SortedMap.keys s

def ofList (l : List κ) : SortedSet κ := l.foldl add SortedMap.empty

end SortedSet
end Reconciliation
