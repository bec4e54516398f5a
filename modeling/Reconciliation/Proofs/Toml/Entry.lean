import Reconciliation.Proofs.Toml.Number
import Reconciliation.Proofs.Toml.Quoted
import Reconciliation.Toml.Reader

/-!
Keys and values in TOML text. What is printed for a key or for a value is read back from the front
of any text that goes on as a document does: with a blank or a bracket after a key, with a line
break after a value, with a comma or a bracket after an item of a list.
-/
namespace Reconciliation.Toml

/-- The text starts neither with a blank nor with a comment nor with a line break. -/
def Firm (cs : List Char) : Prop := ∀ c, cs.head? = some c → c ∉ [' ', '\t', '#', '\n', '\r']

section Blanks
variable {cs : List Char}

theorem skipSpaces_blanks (h : Firm cs) (blanks : ℕ) :
    skipSpaces (List.replicate blanks ' ' ++ cs) = cs := by
  unfold skipSpaces
  rw [List.dropWhile_append_of_pos fun c hc => by rw [List.eq_of_mem_replicate hc]; rfl]
  cases cs with
  | nil => rfl
  | cons c cs =>
    have hc := h c rfl
    refine List.dropWhile_cons_of_neg ?_
    simp only [List.mem_cons, not_or] at hc
    simp [isSpace, hc.1, hc.2.1]

theorem comment?_firm (h : Firm cs) : comment? cs = some cs := by
  unfold comment?
  split
  · exact absurd (by simp) (h '#' rfl)
  · rfl

theorem lineBreak?_firm (h : Firm cs) : lineBreak? cs = none := by
  unfold lineBreak?
  split
  · exact absurd (by simp) (h '\n' rfl)
  · exact absurd (by simp) (h '\r' rfl)
  · rfl

theorem skipLines?_blanks (h : Firm cs) (fuel blanks : ℕ) :
    skipLines? (fuel + 1) (List.replicate blanks ' ' ++ cs) = some cs := by
  rw [skipLines?, skipSpaces_blanks h, comment?_firm h]
  dsimp only [Option.bind_eq_bind, Option.bind_some]
  rw [lineBreak?_firm h]

theorem skipAll?_firm (h : Firm cs) : skipAll? cs = some cs := skipLines?_blanks h _ 0

theorem skipAll?_line (h : Firm cs) (blanks : ℕ) :
    skipAll? ('\n' :: (List.replicate blanks ' ' ++ cs)) = some cs := skipLines?_blanks h _ blanks

end Blanks

section Keys
variable {rest : List Char}

/-- A key begins with a character of a bare key or with a quote. -/
theorem head_keyForm (k : String) : ∃ c cs, (keyForm k).toList = c :: cs ∧
    (isBareKeyChar c = true ∨ c = '"' ∨ c = '\'') := by
  unfold keyForm
  dsimp only
  split_ifs with hbare h h
  · cases hk : k.toList with
    | nil => rw [hk] at hbare; cases hbare
    | cons c cs =>
      rw [hk, isBare, Bool.and_eq_true] at hbare
      exact ⟨c, cs, rfl, .inl (List.all_eq_true.mp hbare.2 c (by simp))⟩
  all_goals rw [String.toList_append, String.toList_append, List.append_assoc]
  · exact ⟨'"', _, rfl, .inr (.inl rfl)⟩
  · exact ⟨'\'', _, rfl, .inr (.inr rfl)⟩
  · exact ⟨'"', _, rfl, .inr (.inl rfl)⟩

theorem firm_keyForm (k : String) : Firm ((keyForm k).toList ++ rest) := by
  obtain ⟨c, cs, hk, hc⟩ := head_keyForm k
  rw [hk]
  rintro _ ⟨⟩ hmem
  simp only [List.mem_cons, List.not_mem_nil, or_false] at hmem
  rcases hmem with rfl | rfl | rfl | rfl | rfl <;> exact absurd hc (by decide)

/-- A key in quotes is read back. -/
theorem simpleKey?_quoted {c : Char} (hc : isBareKeyChar c = false) {cs : List Char} :
    simpleKey? (c :: cs) = oneLine? (c :: cs) := by
  rw [simpleKey?, hc]
  rfl

/-- A bare key ends before the first character that no bare key has. -/
theorem simpleKey?_bare {cs : List Char} (hbare : isBare cs = true)
    (hrest : ∀ c, rest.head? = some c → isBareKeyChar c = false) :
    simpleKey? (cs ++ rest) = some (String.ofList cs, rest) := by
  rw [isBare, Bool.and_eq_true, List.all_eq_true] at hbare
  have hkey : ∀ c ∈ cs, isBareKeyChar c = true := hbare.2
  have htake := takeWhile_run hkey hrest
  have hdrop := dropWhile_run hkey hrest
  cases cs with
  | nil => cases hbare.1
  | cons c cs =>
    rw [List.cons_append] at htake hdrop ⊢
    rw [simpleKey?, if_pos (hkey c (by simp)), htake, hdrop]

/-- A key is read back in whatever form it is printed. -/
theorem simpleKey?_keyForm (k : String) (hrest : ∀ c, rest.head? = some c → isBareKeyChar c = false) :
    simpleKey? ((keyForm k).toList ++ rest) = some (k, rest) := by
  obtain ⟨cs, rfl⟩ : ∃ cs, k = String.ofList cs := ⟨k.toList, String.ofList_toList.symm⟩
  have hcs : (String.ofList cs).toList = cs := String.toList_ofList
  have hescaped : simpleKey? ('"' :: ((escapedFrom false 0 cs).toList ++ '"' :: rest)) =
      some (String.ofList cs, rest) := by
    rw [simpleKey?_quoted (by decide), oneLine?, basic?_escapedFrom, List.reverse_nil,
      List.nil_append]
    have := length_le_escapedFrom false cs 0
    rw [List.length_append]
    omega
  unfold keyForm
  dsimp only
  rw [hcs]
  by_cases hbare : isBare cs = true
  · rw [if_pos hbare, hcs, simpleKey?_bare hbare hrest]
  rw [if_neg hbare]
  by_cases hdouble : (!((Shape.ofList cs).controls || (Shape.ofList cs).lineBreak) &&
    !(Shape.ofList cs).backslash && (Shape.ofList cs).doubleRun = 0 : Bool) = true
  · rw [if_pos hdouble]
    simp only [Bool.and_eq_true, Bool.not_eq_true', decide_eq_true_eq, Bool.or_eq_false_iff]
      at hdouble
    rw [escapedFrom_plain fun c hc => ⟨plain_of_oneLine hdouble.1.1.1 hdouble.1.1.2 hc, fun heq =>
      notMem_of_longestRun hdouble.2 (heq ▸ hc), fun heq =>
      notMem_of_backslash hdouble.1.2 (heq ▸ hc)⟩] at hescaped
    rw [toList_between, hcs]
    exact hescaped
  rw [if_neg hdouble]
  by_cases hsingle : (!((Shape.ofList cs).controls || (Shape.ofList cs).lineBreak) &&
    (Shape.ofList cs).singleRun = 0 : Bool) = true
  · rw [if_pos hsingle]
    simp only [Bool.and_eq_true, Bool.not_eq_true', decide_eq_true_eq, Bool.or_eq_false_iff]
      at hsingle
    rw [toList_between, hcs]
    refine (simpleKey?_quoted (by decide)).trans ?_
    exact literal?_text (notMem_of_longestRun hsingle.2)
      (fun c hc => plain_of_oneLine hsingle.1.1 hsingle.1.2 hc) rest
  · rw [if_neg hsingle, toList_between]
    exact hescaped

theorem key?_keyForm (k : String) (hrest : ∀ c, rest.head? = some c → isBareKeyChar c = false)
    (hdot : (skipSpaces rest).head? ≠ some '.') (fuel : ℕ) (path : List String) :
    key? (fuel + 1) path ((keyForm k).toList ++ rest) = some (path, k, skipSpaces rest) := by
  rw [key?, ← List.nil_append (_ ++ rest), ← List.replicate_zero, skipSpaces_blanks (firm_keyForm k),
    simpleKey?_keyForm k hrest]
  dsimp only [Option.bind_eq_bind, Option.bind_some]
  split
  · rename_i heq
    exact absurd (congrArg List.head? heq) hdot
  · rfl

end Keys

section Values
variable {rest : List Char}

theorem head_textForm (s : String) : ∃ c cs, (textForm s).toList = c :: cs ∧ (c = '"' ∨ c = '\'') := by
  unfold textForm
  dsimp only
  split_ifs
  all_goals
    simp only [String.toList_append, List.append_assoc]
    first
    | exact ⟨'"', _, rfl, .inl rfl⟩
    | exact ⟨'\'', _, rfl, .inr rfl⟩

/-- A string is read back if no quote follows on it. -/
theorem value?_textForm (s : String) (hdouble : rest.head? ≠ some '"')
    (hsingle : rest.head? ≠ some '\'') (fuel depth : ℕ) :
    value? (fuel + 1) depth ((textForm s).toList ++ rest) = some (.str s, rest) := by
  have hread := string?_textForm s hdouble hsingle
  obtain ⟨c, cs, hs, hc⟩ := head_textForm s
  rw [hs, List.cons_append] at hread ⊢
  have hquote : (c = '"' || c = '\'' : Bool) = true := by
    rcases hc with rfl | rfl <;> rfl
  rw [value?, if_pos hquote, hread]
  · rfl
  · rintro rfl
    exact absurd hc (by decide)
  · rintro rfl
    exact absurd hc (by decide)

/-- A scalar ends at the end of its line. -/
theorem value?_scalar {cs : List Char} {v : Value} (hcs : ∀ c ∈ cs, isScalarChar c = true)
    (hv : scalar? cs = some v) (fuel depth : ℕ) :
    value? (fuel + 1) depth (cs ++ '\n' :: rest) = some (v, '\n' :: rest) := by
  have hne : cs ≠ [] := by
    rintro rfl
    cases hv
  have htake : (cs ++ '\n' :: rest).takeWhile isScalarChar = cs :=
    takeWhile_run hcs (by rintro _ ⟨⟩; rfl)
  have hrun : scalarRun (cs ++ '\n' :: rest) = (cs, '\n' :: rest) := by
    unfold scalarRun
    dsimp only
    rw [htake, List.drop_left]
    split
    · rename_i heq
      cases heq
    · rfl
  obtain ⟨c, cs, rfl⟩ := List.exists_cons_of_ne_nil hne
  have hc := hcs c (by simp)
  have hquote : ¬ (c = '"' || c = '\'' : Bool) = true := by
    rw [Bool.or_eq_true, decide_eq_true_eq, decide_eq_true_eq]
    rintro (rfl | rfl) <;> cases hc
  rw [List.cons_append] at hrun ⊢
  rw [value?, if_neg hquote, hrun]
  · dsimp only
    rw [hv]
    rfl
  · rintro rfl
    cases hc
  · rintro rfl
    cases hc

theorem firm_textForm (s : String) : Firm ((textForm s).toList ++ rest) := by
  obtain ⟨c, cs, hs, hc⟩ := head_textForm s
  rw [hs]
  rintro _ ⟨⟩
  rcases hc with rfl | rfl <;> decide

/-- One item of a list of texts is read; a comma lets the list go on. -/
theorem items?_item {cs : List Char} {s : String} {mark : Char} (hmark : mark = ',' ∨ mark = ']')
    (hcs : skipAll? cs = some ((textForm s).toList ++ mark :: rest)) (fuel depth : ℕ)
    (acc : List Value) :
    items? (fuel + 2) depth acc cs =
      if mark = ',' then items? (fuel + 1) depth (.str s :: acc) rest
      else some (.array false (Value.str s :: acc).reverse, rest) := by
  have hmarks : mark ∉ ['"', '\'', ' ', '\t', '#', '\n', '\r'] := by
    rcases hmark with rfl | rfl <;> decide
  have hvalue : value? (fuel + 1) depth ((textForm s).toList ++ mark :: rest) =
      some (.str s, mark :: rest) :=
    value?_textForm s (fun heq => hmarks (by simp [Option.some.inj heq]))
      (fun heq => hmarks (by simp [Option.some.inj heq])) fuel depth
  have hskip : skipAll? (mark :: rest) = some (mark :: rest) := skipAll?_firm fun c hc hmem => by
    obtain rfl : mark = c := Option.some.inj hc
    exact hmarks (List.mem_cons_of_mem _ (List.mem_cons_of_mem _ hmem))
  rw [items?, hcs]
  dsimp only [Option.bind_eq_bind, Option.bind_some]
  split
  · rename_i heq
    obtain ⟨c, cs, hs, hc⟩ := head_textForm s
    rw [hs] at heq
    cases heq
    exact absurd hc (by decide)
  · rw [hvalue]
    dsimp only [Option.bind_some]
    rw [hskip]
    rcases hmark with rfl | rfl <;> rfl

/-- The lines of a list of texts after its opening bracket. -/
def itemLines (items : List String) : List Char :=
  (String.join (items.map fun s => "    " ++ textForm s ++ ",\n")).toList

theorem itemLines_cons (s : String) (items : List String) :
    itemLines (s :: items) =
      List.replicate 4 ' ' ++ ((textForm s).toList ++ ',' :: '\n' :: itemLines items) := by
  simp only [itemLines, List.map_cons, String.join_cons, String.toList_append, List.append_assoc]
  rfl

/-- The items of a list stand on lines of their own, and the last one ends with a comma too. -/
theorem items?_lines (items : List String) : ∀ (fuel depth : ℕ) (acc : List Value),
    items.length < fuel → items? fuel depth acc ('\n' :: (itemLines items ++ ']' :: rest)) =
      some (.array false (acc.reverse ++ items.map .str), rest) := by
  induction items with
  | nil =>
    intro fuel depth acc hfuel
    obtain ⟨fuel, rfl⟩ := Nat.exists_eq_succ_of_ne_zero (Nat.ne_of_gt hfuel)
    have hfirm : Firm (']' :: rest) := by
      rintro _ ⟨⟩
      decide
    rw [items?, show itemLines [] = [] from rfl, List.nil_append]
    have hskip := skipAll?_line hfirm 0
    rw [List.replicate_zero, List.nil_append] at hskip
    rw [hskip, List.map_nil, List.append_nil]
    rfl
  | cons s items ih =>
    intro fuel depth acc hfuel
    obtain ⟨fuel, rfl⟩ : ∃ k, fuel = k + 2 := ⟨fuel - 2, by
      rw [List.length_cons] at hfuel
      omega⟩
    rw [itemLines_cons, List.append_assoc, List.append_assoc, List.cons_append,
      items?_item (.inl rfl) (skipAll?_line (firm_textForm s) 4), if_pos rfl, List.cons_append,
      ih _ _ _ (by rw [List.length_cons] at hfuel; omega), List.reverse_cons, List.append_assoc]
    rfl

/-- The value that a printed one states. -/
def Entry.value : Entry → Value
  | .text s => .str s
  | .bool b => .bool b
  | .nat n => .int n
  | .float x => .float x
  | .texts items => .array false (items.map .str)

/-- Whole numbers of at most 64 bits and finite floats are read back as what they are. -/
def Entry.Readable : Entry → Prop
  | .nat n => n < 2 ^ 64
  | .float x => ∃ negative m e, FloatParts.ofFloat x = .finite negative m e
  | _ => True

theorem isScalarChar_digit {c : Char} (hc : c.isDigit = true) : isScalarChar c = true := by
  obtain ⟨hlow, hhigh⟩ : 48 ≤ c.toNat ∧ c.toNat ≤ 57 := Char.isDigit_iff_toNat.mp hc
  rw [isScalarChar, Bool.not_eq_true']
  simp only [isSpace, isControl, Bool.or_eq_false_iff, Bool.and_eq_false_iff, decide_eq_false_iff_not]
  refine ⟨⟨⟨⟨⟨⟨⟨⟨⟨⟨⟨?_, ?_⟩, .inl ?_, ?_⟩, ?_⟩, ?_⟩, ?_⟩, ?_⟩, ?_⟩, ?_⟩, ?_⟩, ?_⟩, ?_⟩
  all_goals first | omega | (rintro rfl; revert hlow hhigh; decide)

theorem itemLines_length (items : List String) : items.length ≤ (itemLines items).length := by
  induction items with
  | nil => exact Nat.zero_le _
  | cons s items ih =>
    rw [itemLines_cons]
    simp only [List.length_append, List.length_cons]
    omega

/-- A printed value is read back at the end of its line. -/
theorem value?_form {e : Entry} (h : e.Readable) {fuel depth : ℕ}
    (hfuel : e.form.toList.length ≤ fuel) (hdepth : depth ≠ 0) :
    value? (fuel + 3) depth (e.form.toList ++ '\n' :: rest) = some (e.value, '\n' :: rest) := by
  cases e with
  | text s => exact value?_textForm s (by rintro ⟨⟩) (by rintro ⟨⟩) (fuel + 2) depth
  | bool b =>
    refine value?_scalar ?_ (scalar?_bool b) (fuel + 2) depth
    cases b with
    | false => exact List.all_eq_true.mp (rfl : ['f', 'a', 'l', 's', 'e'].all isScalarChar = true)
    | true => exact List.all_eq_true.mp (rfl : ['t', 'r', 'u', 'e'].all isScalarChar = true)
  | nat n =>
    have hdigits := AllDigits.toDigits n
    rw [show (Entry.nat n).form.toList = Nat.toDigits 10 n from String.toList_ofList]
    exact value?_scalar (fun c hc => isScalarChar_digit (hdigits c hc)) (scalar?_toDigits h)
      (fuel + 2) depth
  | float x =>
    obtain ⟨negative, m, e, hx⟩ := h
    refine value?_scalar (fun c hc => ?_) (scalar?_floatForm hx) (fuel + 2) depth
    rcases mem_floatForm hx hc with hc | rfl | rfl
    · exact isScalarChar_digit hc
    · decide
    · decide
  | texts items =>
    have hopen : ∀ cs, value? (fuel + 3) depth ('[' :: cs) = items? (fuel + 2) (depth - 1) [] cs :=
      fun cs => by rw [value?, if_neg hdepth]
    match items with
    | [] => exact (hopen _).trans rfl
    | [s] =>
      rw [show (Entry.texts [s]).form.toList = '[' :: ((textForm s).toList ++ [']']) by
        simp only [Entry.form, String.toList_append]
        rfl, List.cons_append, List.append_assoc, hopen, List.singleton_append,
        items?_item (.inr rfl) (skipAll?_firm (firm_textForm s)), if_neg (by decide)]
      rfl
    | s :: t :: items =>
      have hform : (Entry.texts (s :: t :: items)).form.toList =
          '[' :: '\n' :: (itemLines (s :: t :: items) ++ [']']) := by
        simp only [Entry.form, String.toList_append]
        rfl
      have hlength := itemLines_length (s :: t :: items)
      rw [hform, List.length_cons, List.length_cons, List.length_append] at hfuel
      rw [hform, List.cons_append, List.cons_append, List.append_assoc, hopen,
        List.singleton_append, items?_lines _ _ _ _ (by omega)]
      rfl

end Values

end Reconciliation.Toml
