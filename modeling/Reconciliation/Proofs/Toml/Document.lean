import Reconciliation.Proofs.Sorted.Lookup
import Reconciliation.Proofs.Toml.Entry

/-!
Documents of entries and tables. A printed document is read as the table of what it states: each
line puts its value at the end of the table that its header opened, and a header puts the table
before it in its place. Main statement: `parse?_text`.
-/
namespace Reconciliation.Toml

/-- Values are read from their first character on. -/
theorem firm_of_value? {fuel depth : ℕ} {cs : List Char} {r : Value × List Char}
    (h : value? fuel depth cs = some r) : Firm cs := by
  rintro c hc hmem
  obtain ⟨cs, rfl⟩ : ∃ ds, cs = c :: ds := by
    cases cs with
    | nil => cases hc
    | cons d ds => exact ⟨ds, by rw [Option.some.inj hc]⟩
  cases fuel with
  | zero => cases h
  | succ fuel =>
    simp only [List.mem_cons, List.not_mem_nil, or_false] at hmem
    rcases hmem with rfl | rfl | rfl | rfl | rfl <;> cases h

section Tables
variable {t : Table} {k : String} {v : Value}

theorem set_fresh (hfresh : t.entries.lookup k = none) :
    t.set k v = ⟨t.origin, t.entries ++ [(k, v)]⟩ := by
  unfold Table.set
  rw [hfresh]
  rfl

theorem define_fresh (horigin : t.origin = .header) (hfresh : t.entries.lookup k = none) :
    t.define [] k v = some ⟨t.origin, t.entries ++ [(k, v)]⟩ := by
  change (if (t.origin == .dotted) == true || (t.entries.lookup k).isSome then none
    else some (t.set k v)) = _
  rw [horigin, hfresh, set_fresh hfresh]
  rw [horigin]
  rfl

theorem adopt_fresh {item : Table} (hfresh : t.entries.lookup k = none) :
    t.adopt [] k item = some ⟨t.origin, t.entries ++ [(k, item.toValue)]⟩ := by
  change (if (t.entries.lookup k).isSome then none else some (t.set k item.toValue)) = _
  rw [hfresh, set_fresh hfresh]
  rfl

theorem takeOver_fresh (hfresh : t.entries.lookup k = none) :
    t.takeOver [] k = some (t, ⟨.header, []⟩) := by
  rw [Table.takeOver, Table.takeOver.find, hfresh]
  rfl

end Tables

/-- With enough fuel for its length, the text is read to its end. -/
def Reads (p : Partial) (cs : List Char) (q : Partial) : Prop :=
  ∀ fuel, cs.length < fuel → expressions? fuel p cs = some q

theorem skipLines?_breaks (n : ℕ) : ∀ fuel, n < fuel →
    skipLines? fuel (List.replicate n '\n') = some [] := by
  induction n with
  | zero =>
    intro fuel hfuel
    obtain ⟨fuel, rfl⟩ := Nat.exists_eq_succ_of_ne_zero (Nat.ne_of_gt hfuel)
    rfl
  | succ n ih =>
    intro fuel hfuel
    obtain ⟨fuel, rfl⟩ := Nat.exists_eq_succ_of_ne_zero (Nat.ne_of_gt (Nat.zero_lt_of_lt hfuel))
    exact ih fuel (Nat.lt_of_succ_lt_succ hfuel)

/-- Empty lines at the end add nothing. -/
theorem Reads.breaks (p : Partial) (n : ℕ) : Reads p (List.replicate n '\n') p := by
  intro fuel hfuel
  obtain ⟨fuel, rfl⟩ := Nat.exists_eq_succ_of_ne_zero (Nat.ne_of_gt (Nat.zero_lt_of_lt hfuel))
  have hskip : skipAll? (List.replicate n '\n') = some [] :=
    skipLines?_breaks n _ (by rw [List.length_replicate]; exact Nat.lt_succ_self n)
  rw [expressions?, hskip]
  rfl

/-- The line of a key and its value, and what follows it. -/
def entryLine (k : String) (e : Entry) (rest : List Char) : List Char :=
  (keyForm k).toList ++ ' ' :: '=' :: ' ' :: (e.form.toList ++ '\n' :: rest)

/-- A line puts its value at the end of the current table, which has no such key yet. -/
theorem Reads.entry {p q : Partial} {k : String} {e : Entry} {rest : List Char} (he : e.Readable)
    (horigin : p.current.origin = .header) (hfresh : p.current.entries.lookup k = none)
    (h : Reads { p with current := ⟨p.current.origin, p.current.entries ++ [(k, e.value)]⟩ } rest q) :
    Reads p (entryLine k e rest) q := by
  intro fuel hfuel
  obtain ⟨fuel, rfl⟩ := Nat.exists_eq_succ_of_ne_zero (Nat.ne_of_gt (Nat.zero_lt_of_lt hfuel))
  have hrest : rest.length < fuel := by
    simp only [entryLine, List.length_append, List.length_cons] at hfuel
    omega
  have hvalue : value? (2 * (e.form.toList ++ '\n' :: rest).length + 2) 80
      (e.form.toList ++ '\n' :: rest) = some (e.value, '\n' :: rest) := by
    obtain ⟨k, hk⟩ : ∃ k, 2 * (e.form.toList ++ '\n' :: rest).length + 2 = k + 3 := by
      rw [List.length_append, List.length_cons]
      exact ⟨_, (Nat.sub_add_cancel (by omega)).symm⟩
    rw [hk, value?_form he _ (by decide)]
    rw [List.length_append, List.length_cons] at hk
    omega
  have hspaces : skipSpaces (' ' :: (e.form.toList ++ '\n' :: rest)) =
      e.form.toList ++ '\n' :: rest := skipSpaces_blanks (firm_of_value? hvalue) 1
  have hkey : ∀ fuel, key? (fuel + 1) [] (entryLine k e rest) =
      some ([], k, '=' :: ' ' :: (e.form.toList ++ '\n' :: rest)) := fun fuel =>
    key?_keyForm k (by rintro _ ⟨⟩; rfl) (by rintro ⟨⟩) fuel []
  have hskip : skipAll? (entryLine k e rest) = some (entryLine k e rest) :=
    skipAll?_firm (firm_keyForm k)
  rw [expressions?, hskip]
  dsimp only [Option.bind_eq_bind, Option.bind_some]
  obtain ⟨c, cs, hk, hc⟩ := head_keyForm k
  split
  · rename_i heq
    rw [entryLine, hk] at heq
    cases heq
  · rename_i heq
    rw [entryLine, hk] at heq
    cases heq
    exact absurd hc (by decide)
  · rw [hkey]
    dsimp only [Option.bind_some]
    change ((value? (2 * (skipSpaces (' ' :: (e.form.toList ++ '\n' :: rest))).length + 2) 80
      (skipSpaces (' ' :: (e.form.toList ++ '\n' :: rest)))).bind _) = _
    rw [hspaces, hvalue]
    dsimp only [Option.bind_some]
    rw [define_fresh horigin hfresh]
    exact h fuel hrest

/-- The table that entries state. -/
def stated (entries : List (String × Entry)) : List (String × Value) :=
  entries.map fun e => (e.1, e.2.value)

theorem entryLines_cons (e : String × Entry) (entries : List (String × Entry)) (rest : List Char) :
    (entryLines (e :: entries)).toList ++ rest =
      entryLine e.1 e.2 ((entryLines entries).toList ++ rest) := by
  simp only [entryLines, entryLine, List.map_cons, String.join_cons, String.toList_append,
    List.append_assoc]
  rfl

/-- Lines with distinct keys put their values into the current table in order. -/
theorem Reads.entries {q : Partial} {rest : List Char} (entries : List (String × Entry)) :
    ∀ p : Partial, p.current.origin = .header →
      (p.current.entries.map (·.1) ++ entries.map (·.1)).Nodup →
      (∀ e ∈ entries, e.2.Readable) →
      Reads { p with current := ⟨.header, p.current.entries ++ stated entries⟩ } rest q →
      Reads p ((entryLines entries).toList ++ rest) q := by
  induction entries with
  | nil =>
    intro p horigin _ _ h
    rw [stated, List.map_nil, List.append_nil, ← horigin] at h
    exact h
  | cons e entries ih =>
    intro p horigin hkeys hreadable h
    rw [List.forall_mem_cons] at hreadable
    have hfresh : e.1 ∉ p.current.entries.map (·.1) := fun hmem =>
      (List.nodup_append.mp hkeys).2.2 e.1 hmem e.1 (by simp) rfl
    rw [entryLines_cons]
    refine .entry hreadable.1 horigin (Association.lookup_eq_none_of_notMem _ _ hfresh) (ih _ horigin ?_ hreadable.2 ?_)
    · simpa using hkeys
    · simpa [stated] using h

/-- The line of a header after an empty one, and what follows it. -/
def headerLine (k : String) (rest : List Char) : List Char :=
  '\n' :: '[' :: ((keyForm k).toList ++ ']' :: '\n' :: rest)

/-- A header is read back as the key of its table. -/
theorem header?_keyForm (k : String) (rest : List Char) :
    header? ('[' :: ((keyForm k).toList ++ ']' :: rest)) = some (⟨[], k, false⟩, rest) := by
  have hkey : ∀ fuel, key? (fuel + 1) [] ((keyForm k).toList ++ ']' :: rest) =
      some ([], k, ']' :: rest) := fun fuel =>
    key?_keyForm k (by rintro _ ⟨⟩; rfl) (by rintro ⟨⟩) fuel []
  obtain ⟨c, cs, hk, hc⟩ := head_keyForm k
  unfold header?
  split
  rename_i heq
  split at heq
  · rename_i hopen
    rw [hk] at hopen
    cases hopen
    exact absurd hc (by decide)
  · rename_i hopen
    cases hopen
    cases heq
    rw [hkey]
    rfl
  · rename_i hopen
    cases hopen

/-- A header puts the current table in its place and opens a new one. -/
theorem Reads.header {p q : Partial} {root : Table} {k : String} {rest : List Char}
    (hclose : p.close = some root) (hfresh : root.entries.lookup k = none)
    (h : Reads ⟨root, some ⟨[], k, false⟩, ⟨.header, []⟩⟩ rest q) : Reads p (headerLine k rest) q := by
  intro fuel hfuel
  obtain ⟨fuel, rfl⟩ := Nat.exists_eq_succ_of_ne_zero (Nat.ne_of_gt (Nat.zero_lt_of_lt hfuel))
  have hrest : rest.length < fuel := by
    simp only [headerLine, List.length_append, List.length_cons] at hfuel
    omega
  have hskip : skipAll? (headerLine k rest) =
      some ('[' :: ((keyForm k).toList ++ ']' :: '\n' :: rest)) :=
    skipAll?_line (by rintro _ ⟨⟩; decide) 0
  have henter : p.enter ⟨[], k, false⟩ = some ⟨root, some ⟨[], k, false⟩, ⟨.header, []⟩⟩ := by
    rw [Partial.enter, hclose]
    change (Table.takeOver root [] k).bind _ = _
    rw [takeOver_fresh hfresh]
    rfl
  rw [expressions?, hskip]
  dsimp only [Option.bind_eq_bind, Option.bind_some]
  rw [header?_keyForm]
  dsimp only [Option.bind_some]
  rw [henter]
  exact h fuel hrest

/-- The text of tables under their headers. -/
def tablesText (tables : List (String × List (String × Entry))) : String :=
  String.join (tables.map fun t => "\n[" ++ keyForm t.1 ++ "]\n" ++ entryLines t.2)

theorem tablesText_cons (t : String × List (String × Entry))
    (tables : List (String × List (String × Entry))) (rest : List Char) :
    (tablesText (t :: tables)).toList ++ rest =
      headerLine t.1 ((entryLines t.2).toList ++ ((tablesText tables).toList ++ rest)) := by
  simp only [tablesText, headerLine, List.map_cons, String.join_cons, String.toList_append,
    List.append_assoc]
  rfl

/-- The tables that are stated under headers. -/
def statedTables (tables : List (String × List (String × Entry))) : List (String × Value) :=
  tables.map fun t => (t.1, .table .header (stated t.2))

/-- Tables with distinct names follow on the entries of the root; the blank lines between them say
nothing. -/
theorem Reads.tables (n : ℕ) (tables : List (String × List (String × Entry))) :
    ∀ (p : Partial) (root : Table), p.close = some root → (root.entries.map (·.1) ++ tables.map (·.1)).Nodup →
    (∀ t ∈ tables, (t.2.map (·.1)).Nodup ∧ ∀ e ∈ t.2, e.2.Readable) →
    ∃ q, Reads p ((tablesText tables).toList ++ List.replicate n '\n') q ∧
      q.close = some ⟨root.origin, root.entries ++ statedTables tables⟩ := by
  induction tables with
  | nil =>
    intro p root hclose _ _
    refine ⟨p, .breaks p n, ?_⟩
    rw [statedTables, List.map_nil, List.append_nil]
    exact hclose
  | cons t tables ih =>
    intro p root hclose hkeys htables
    rw [List.forall_mem_cons] at htables
    have hfresh : root.entries.lookup t.1 = none :=
      Association.lookup_eq_none_of_notMem _ _ fun hmem =>
      (List.nodup_append.mp hkeys).2.2 t.1 hmem t.1 (by simp) rfl
    obtain ⟨q, hreads, hq⟩ := ih
      ⟨root, some ⟨[], t.1, false⟩, ⟨.header, stated t.2⟩⟩ _ (adopt_fresh hfresh)
      (by simpa using hkeys) htables.2
    refine ⟨q, ?_, ?_⟩
    · rw [tablesText_cons]
      exact .header hclose hfresh (.entries t.2 _ rfl (by simpa using htables.1.1) htables.1.2 hreads)
    · simpa [statedTables, Table.toValue] using hq

/-- The keys of every table differ, and all values can be read back. -/
structure Document.Readable (d : Document) : Prop where
  keys : (d.entries.map (·.1) ++ d.tables.map (·.1)).Nodup
  entries : ∀ e ∈ d.entries, e.2.Readable
  tables : ∀ t ∈ d.tables, (t.2.map (·.1)).Nodup ∧ ∀ e ∈ t.2, e.2.Readable

/-- The table that a document states. -/
def Document.table (d : Document) : Table := ⟨.header, stated d.entries ++ statedTables d.tables⟩

theorem dropMark_of_head {cs : List Char} (h : cs.head? ≠ some '\uFEFF') : dropMark cs = cs := by
  unfold dropMark
  split
  · exact absurd rfl h
  · rfl

/-- The text of a document starts with a key, with the line before a header, or with what stands
after it. -/
theorem head_text (d : Document) (n : ℕ) :
    ((entryLines d.entries).toList ++ ((tablesText d.tables).toList ++
      List.replicate n '\n')).head? ≠ some '\uFEFF' := by
  cases d.entries with
  | cons e entries =>
    obtain ⟨c, cs, hk, hc⟩ := head_keyForm e.1
    rw [entryLines_cons, entryLine, hk]
    rintro ⟨⟩
    exact absurd hc (by decide)
  | nil =>
    cases d.tables with
    | cons t tables =>
      rw [tablesText_cons]
      rintro ⟨⟩
    | nil => cases n <;> rintro ⟨⟩

/-- A printed document is read as the table that it states, whatever empty lines follow it. -/
theorem parse?_text {d : Document} (h : d.Readable) (n : ℕ) :
    parse? (d.text ++ String.ofList (List.replicate n '\n')) = some d.table := by
  have htext : (d.text ++ String.ofList (List.replicate n '\n')).toList =
      (entryLines d.entries).toList ++ ((tablesText d.tables).toList ++ List.replicate n '\n') := by
    rw [Document.text, String.toList_append, String.toList_append, String.toList_ofList,
      List.append_assoc]
    rfl
  have hstated : (stated d.entries).map (·.1) = d.entries.map (·.1) := by
    rw [stated, List.map_map]
    rfl
  obtain ⟨q, hreads, hq⟩ := Reads.tables n d.tables
    ⟨⟨.header, []⟩, none, ⟨.header, stated d.entries⟩⟩ ⟨.header, stated d.entries⟩ rfl
    (by rw [hstated]; exact h.keys) h.tables
  have hall : Reads .start ((entryLines d.entries).toList ++
      ((tablesText d.tables).toList ++ List.replicate n '\n')) q :=
    .entries d.entries _ rfl (List.nodup_append.mp h.keys).1 h.entries hreads
  rw [parse?, htext, dropMark_of_head (head_text d n), hall _ (Nat.lt_succ_self _)]
  exact hq

theorem append_no_breaks (text : String) : text ++ String.ofList (List.replicate 0 '\n') = text :=
  String.append_empty

section Fields

theorem jsonItems_eq_map (items : List Value) : jsonItems items = items.map Value.toJson := by
  induction items with
  | nil => rfl
  | cons v items ih => rw [jsonItems, ih, List.map_cons]

theorem jsonFields_eq_map (entries : List (String × Value)) :
    jsonFields entries = entries.map fun e => (e.1, e.2.toJson) := by
  induction entries with
  | nil => rfl
  | cons e entries ih => rw [jsonFields, ih, List.map_cons]

/-- Entries as the fields of an object. -/
def fields (entries : List (String × Entry)) : List (String × Json) :=
  entries.map fun e => (e.1, e.2.value.toJson)

theorem jsonFields_stated (entries : List (String × Entry)) :
    jsonFields (stated entries) = fields entries := by
  rw [jsonFields_eq_map, stated, List.map_map]
  rfl

theorem toJson_texts (items : List String) :
    (Entry.texts items).value.toJson = .arr (items.map .str) := by
  rw [Entry.value, Value.toJson, jsonItems_eq_map, List.map_map]
  exact congrArg Json.arr (List.map_congr_left fun s _ => by rw [Function.comp_apply, Value.toJson])

theorem toJson_table (d : Document) : d.table.toJson =
    .object (fields d.entries ++ d.tables.map fun t => (t.1, .object (fields t.2))) := by
  rw [Table.toJson, Table.toValue, Value.toJson, Document.table, jsonFields_eq_map, List.map_append,
    ← jsonFields_eq_map, jsonFields_stated, statedTables, List.map_map]
  refine congrArg (fun l => Json.object (fields d.entries ++ l)) (List.map_congr_left fun t _ => ?_)
  rw [Function.comp_apply, Value.toJson, jsonFields_stated]

end Fields

end Reconciliation.Toml
