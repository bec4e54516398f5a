import Reconciliation.Proofs.Number.Scientific
import Reconciliation.Toml.Printer
import Reconciliation.Toml.Scalar

/-!
Numbers in TOML text. A printed whole number is read as that number, and a printed finite float as
that float, the sign of a zero included; neither is mistaken for another kind of scalar.
-/
namespace Reconciliation

/-- All characters are decimal digits. -/
def AllDigits (cs : List Char) : Prop := ∀ c ∈ cs, c.isDigit = true

namespace AllDigits
variable {cs ds : List Char}

theorem toDigits (n : ℕ) : AllDigits (Nat.toDigits 10 n) := fun _ hc =>
  Nat.isDigit_of_mem_toDigits (by decide) (by decide) hc

theorem replicate_zero (n : ℕ) : AllDigits (List.replicate n '0') := fun c hc => by
  rw [List.eq_of_mem_replicate hc]
  rfl

theorem append (h : AllDigits cs) (h' : AllDigits ds) : AllDigits (cs ++ ds) := fun c hc =>
  (List.mem_append.mp hc).elim (h c) (h' c)

theorem tail {c : Char} (h : AllDigits (c :: cs)) : AllDigits cs := fun d hd =>
  h d (List.mem_cons_of_mem c hd)

end AllDigits

section Runs
variable {p : Char → Bool} {cs rest : List Char} (hcs : ∀ c ∈ cs, p c = true)
  (hrest : ∀ c, rest.head? = some c → p c = false)
include hcs hrest

/-- A run of characters of one kind ends before the first character of another. -/
theorem takeWhile_run : (cs ++ rest).takeWhile p = cs := by
  rw [List.takeWhile_append_of_pos hcs]
  cases rest with
  | nil => exact List.append_nil cs
  | cons c rest => rw [List.takeWhile_cons_of_neg (Bool.not_eq_true _ ▸ hrest c rfl), List.append_nil]

theorem dropWhile_run : (cs ++ rest).dropWhile p = rest := by
  rw [List.dropWhile_append_of_pos hcs]
  cases rest with
  | nil => rfl
  | cons c rest => exact List.dropWhile_cons_of_neg (Bool.not_eq_true _ ▸ hrest c rfl)

end Runs

theorem hexValue_digit {c : Char} (hc : c.isDigit = true) :
    (Json.hexValue? c).getD 0 = c.toNat - '0'.toNat := by
  unfold Json.hexValue?
  rw [if_pos hc]
  rfl

/-- The value of a row of digits is the usual one. -/
theorem natOfBase_eq {cs : List Char} (h : AllDigits cs) :
    Toml.natOfBase 10 cs = Nat.ofDigitChars 10 cs 0 := by
  have hgen : ∀ (cs : List Char) (n : ℕ), AllDigits cs →
      cs.foldl (fun n c => n * 10 + (Json.hexValue? c).getD 0) n = Nat.ofDigitChars 10 cs n := by
    intro cs
    induction cs with
    | nil => exact fun n _ => Nat.ofDigitChars_nil.symm
    | cons c cs ih =>
      intro n hcs
      rw [List.foldl_cons, ih _ hcs.tail, Nat.ofDigitChars_cons, hexValue_digit (hcs c (by simp)),
        Nat.mul_comm]
  exact hgen cs 0 h

/-- A number is below the power of ten of its length. -/
theorem ofDigitChars_lt {cs : List Char} (h : AllDigits cs) :
    Nat.ofDigitChars 10 cs 0 < 10 ^ cs.length := by
  induction cs with
  | nil => decide
  | cons c cs ih =>
    have hc := (Char.isDigit_iff_toNat.mp (h c (by simp))).2
    have hvalue : c.toNat - '0'.toNat ≤ 9 := by
      change c.toNat ≤ 57 at hc
      change c.toNat - 48 ≤ 9
      omega
    rw [Nat.ofDigitChars_cons, Nat.ofDigitChars_eq_ofDigitChars_zero, Nat.mul_zero, Nat.zero_add]
    calc 10 ^ cs.length * (c.toNat - '0'.toNat) + Nat.ofDigitChars 10 cs 0
        < 10 ^ cs.length * (c.toNat - '0'.toNat) + 10 ^ cs.length :=
          Nat.add_lt_add_left (ih h.tail) _
      _ ≤ 10 ^ cs.length * 9 + 10 ^ cs.length :=
          Nat.add_le_add_right (Nat.mul_le_mul_left _ hvalue) _
      _ = 10 ^ (c :: cs).length := by
          rw [List.length_cons, pow_succ]
          ring

/-- The number of digits without leading zeros tells the size of a number. -/
theorem ofDigitChars_bounds {cs : List Char} (h : AllDigits cs)
    (hpos : 0 < Nat.ofDigitChars 10 cs 0) :
    10 ^ ((cs.dropWhile (· = '0')).length - 1) ≤ Nat.ofDigitChars 10 cs 0 ∧
      Nat.ofDigitChars 10 cs 0 < 10 ^ (cs.dropWhile (· = '0')).length := by
  induction cs with
  | nil => exact absurd hpos (lt_irrefl 0)
  | cons c cs ih =>
    by_cases hzero : c = '0'
    · subst hzero
      exact ih h.tail hpos
    · have hdrop : (c :: cs).dropWhile (· = '0') = c :: cs := by
        rw [List.dropWhile_cons, if_neg (by simpa using hzero)]
      rw [hdrop]
      refine ⟨?_, ofDigitChars_lt h⟩
      have hc := (Char.isDigit_iff_toNat.mp (h c (by simp))).1
      have hne : c.toNat ≠ '0'.toNat := fun heq => hzero (Char.toNat_inj.mp heq)
      have hone : 1 ≤ c.toNat - '0'.toNat := by omega
      rw [Nat.ofDigitChars_cons, Nat.ofDigitChars_eq_ofDigitChars_zero, Nat.mul_zero, Nat.zero_add,
        List.length_cons, Nat.add_sub_cancel]
      exact (Nat.le_mul_of_pos_right _ hone).trans (Nat.le_add_right _ _)

namespace Toml

/-- Digits without separators are read as they stand. -/
theorem separated?_eq {isDigit : Char → Bool} {cs : List Char} (hne : cs ≠ [])
    (h : ∀ c ∈ cs, isDigit c = true) (hline : '_' ∉ cs) : separated? isDigit cs = some cs := by
  fun_induction separated? isDigit cs with
  | case1 => exact absurd rfl hne
  | case2 c hc => rfl
  | case3 c hc => exact absurd (h c (by simp)) hc
  | case4 => exact absurd hline (by simp)
  | case5 c rest hc => exact absurd (h c (by simp)) hc
  | case6 c rest hne' hnot hc ih =>
    rw [ih hne' (fun d hd => h d (by simp [hd])) (fun hd => hline (by simp [hd]))]
    rfl
  | case7 c rest hne' hnot hc => exact absurd (h c (by simp)) hc

theorem separated?_digits {cs : List Char} (hne : cs ≠ []) (h : AllDigits cs) :
    separated? Char.isDigit cs = some cs :=
  separated?_eq hne h fun hmem => absurd (h '_' hmem) (by decide)

/-- A run that holds another character than digits and underscores is no number. -/
theorem separated?_eq_none {isDigit : Char → Bool} {c : Char} {cs : List Char} (hmem : c ∈ cs)
    (hc : isDigit c = false) (hline : c ≠ '_') : separated? isDigit cs = none := by
  fun_induction separated? isDigit cs <;> grind

theorem decimal?_eq_none {c : Char} {cs : List Char} (hmem : c ∈ cs) (hc : c.isDigit = false)
    (hline : c ≠ '_') : decimal? cs = none := by
  unfold decimal?
  rw [separated?_eq_none hmem hc hline]
  rfl

theorem decimal?_digits {cs : List Char} (hne : cs ≠ []) (h : AllDigits cs)
    (hzero : cs.head? = some '0' → cs.length = 1) : decimal? cs = some cs := by
  unfold decimal?
  rw [separated?_digits hne h]
  have : ¬ ((cs.head? = some '0' && 1 < cs.length : Bool) = true) := by
    rw [Bool.and_eq_true, decide_eq_true_eq, decide_eq_true_eq]
    exact fun ⟨hhead, hlength⟩ => absurd hlength (by rw [hzero hhead]; decide)
  exact if_neg this

/-- Only zero starts with a zero. -/
theorem head_toDigits (n : ℕ) :
    (Nat.toDigits 10 n).head? = some '0' → (Nat.toDigits 10 n).length = 1 := by
  induction n using Nat.strong_induction_on with
  | _ n ih =>
    rw [Nat.toDigits_eq_if (by decide)]
    split_ifs with hsmall
    · exact fun _ => rfl
    · intro hhead
      have hne : Nat.toDigits 10 (n / 10) ≠ [] := Nat.toDigits_ne_nil
      rw [List.head?_append_of_ne_nil _ hne] at hhead
      have hlength := ih (n / 10) (by omega) hhead
      obtain ⟨c, hc⟩ := List.length_eq_one_iff.mp hlength
      rw [hc] at hhead
      obtain rfl : c = '0' := by simpa using hhead
      have hvalue := @Nat.ofDigitChars_ten_toDigits (n / 10)
      rw [hc] at hvalue
      change 0 = n / 10 at hvalue
      omega

theorem decimal?_toDigits (n : ℕ) : decimal? (Nat.toDigits 10 n) = some (Nat.toDigits 10 n) :=
  decimal?_digits Nat.toDigits_ne_nil (AllDigits.toDigits n) (head_toDigits n)

theorem takeSign_digits {cs : List Char} (h : AllDigits cs) : takeSign cs = (false, cs) := by
  unfold takeSign
  split
  · exact absurd (h '-' (by simp)) (by decide)
  · exact absurd (h '+' (by simp)) (by decide)
  · rfl

/-- Numbers of another base have a letter at their second place. -/
theorem integer?_eq {cs : List Char} (h : ∀ c, cs[1]? = some c → c ≠ 'x' ∧ c ≠ 'o' ∧ c ≠ 'b') :
    integer? cs = (decimal? (takeSign cs).2).bind fun ds =>
      inRange? (if (takeSign cs).1 then -(natOfBase 10 ds : ℤ) else natOfBase 10 ds) := by
  unfold integer?
  split
  · exact absurd rfl (h 'x' rfl).1
  · exact absurd rfl (h 'o' rfl).2.1
  · exact absurd rfl (h 'b' rfl).2.2
  · rfl

theorem inRange?_word {n : ℕ} (hfits : n < 2 ^ 64) : inRange? n = some (.int n) := by
  have hlarge : ((2 ^ 64 : ℕ) : ℤ) ≤ (Nat.pow 2 128 : ℕ) :=
    Int.ofNat_le.mpr (Nat.pow_le_pow_right (by decide) (by decide))
  refine if_pos ⟨?_, (Int.ofNat_lt.mpr hfits).trans_le hlarge⟩
  exact (Int.neg_nonpos_of_nonneg (Int.natCast_nonneg _)).trans (Int.natCast_nonneg n)

theorem integer?_toDigits {n : ℕ} (hfits : n < 2 ^ 64) :
    integer? (Nat.toDigits 10 n) = some (.int n) := by
  have hdigits := AllDigits.toDigits n
  rw [integer?_eq, takeSign_digits hdigits, decimal?_toDigits]
  · rw [Option.bind_some, if_neg Bool.false_ne_true, natOfBase_eq hdigits,
      Nat.ofDigitChars_ten_toDigits, inRange?_word hfits]
  · intro c hc
    have := hdigits c (List.mem_of_getElem? hc)
    refine ⟨?_, ?_, ?_⟩ <;> rintro rfl <;> exact absurd this (by decide)

/-- What does not start as a truth value does is a number or a time. -/
theorem scalar?_eq {cs : List Char} (ht : cs.head? ≠ some 't') (hf : cs.head? ≠ some 'f') :
    scalar? cs = (integer? cs).or ((datetime? cs).or (float? cs)) := by
  unfold scalar?
  rw [if_neg (by rintro rfl; exact ht rfl), if_neg (by rintro rfl; exact hf rfl)]

theorem scalar?_toDigits {n : ℕ} (hfits : n < 2 ^ 64) :
    scalar? (Nat.toDigits 10 n) = some (.int n) := by
  have hdigits := AllDigits.toDigits n
  rw [scalar?_eq, integer?_toDigits hfits]
  · rfl
  · exact fun h => absurd (hdigits 't' (List.mem_of_head? h)) (by decide)
  · exact fun h => absurd (hdigits 'f' (List.mem_of_head? h)) (by decide)

theorem scalar?_bool (b : Bool) :
    scalar? (if b then "true" else "false").toList = some (.bool b) := by
  cases b <;> rfl

/-- A date has a dash after the first character. -/
theorem date?_eq_none {cs : List Char} (h : '-' ∉ cs.tail) : date? cs = none := by
  unfold date?
  split
  · exact absurd (by simp) h
  · rfl

theorem time?_eq_none {cs : List Char} (h : ':' ∉ cs) : time? cs = none := by
  unfold time?
  split
  · exact absurd (by simp) h
  · rfl

theorem datetime?_eq_none {cs : List Char} (hdash : '-' ∉ cs.tail) (hcolon : ':' ∉ cs) :
    datetime? cs = none := by
  unfold datetime?
  rw [date?_eq_none hdash, time?_eq_none hcolon]

end Toml

namespace Decimal

/-- A number in positional notation: its digits before the point, of which the first is no zero
unless it is the only one, and its digits after the point. -/
structure Written (v : ℚ) where
  whole : List Char
  fraction : List Char
  whole_ne : whole ≠ []
  fraction_ne : fraction ≠ []
  whole_digits : AllDigits whole
  fraction_digits : AllDigits fraction
  head : whole.head? = some '0' → whole.length = 1
  value : (Nat.ofDigitChars 10 (whole ++ fraction) 0 : ℚ) / 10 ^ fraction.length = v

def Written.text {v : ℚ} (w : Written v) : List Char := w.whole ++ '.' :: w.fraction

theorem digitText_eq (d : Decimal) : d.digitText = Nat.toDigits 10 d.digits := rfl

theorem head_digitText {d : Decimal} (hd : d.digits ≠ 0) : d.digitText.head? ≠ some '0' := by
  intro hhead
  obtain ⟨c, hc⟩ := List.length_eq_one_iff.mp (Toml.head_toDigits d.digits hhead)
  rw [digitText_eq, hc] at hhead
  obtain rfl : c = '0' := by simpa using hhead
  have hvalue := @Nat.ofDigitChars_ten_toDigits d.digits
  rw [hc] at hvalue
  exact hd hvalue.symm

section Positional
variable {d : Decimal}

theorem digitText_digits : AllDigits d.digitText := AllDigits.toDigits d.digits

theorem digitText_ne : d.digitText ≠ [] := Nat.toDigits_ne_nil

theorem value_digitText : Nat.ofDigitChars 10 d.digitText 0 = d.digits :=
  Nat.ofDigitChars_ten_toDigits

/-- All digits stand before the point. -/
def Written.ofWhole (hd : d.digits = 0 → d.exponent = 0) (hexponent : 0 ≤ d.exponent) :
    Written d.toRat where
  whole := d.digitText ++ List.replicate d.exponent.toNat '0'
  fraction := ['0']
  whole_ne := List.append_ne_nil_of_left_ne_nil digitText_ne _
  fraction_ne := List.cons_ne_nil _ _
  whole_digits := digitText_digits.append (.replicate_zero _)
  fraction_digits := .replicate_zero 1
  head hhead := by
    rw [List.head?_append_of_ne_nil _ digitText_ne] at hhead
    by_cases hzero : d.digits = 0
    · rw [hd hzero, digitText_eq, hzero]
      rfl
    · exact absurd hhead (head_digitText hzero)
  value := by
    rw [Nat.ofDigitChars_append, Nat.ofDigitChars_append, value_digitText,
      Nat.ofDigitChars_replicate_zero]
    change ((10 * (10 ^ d.exponent.toNat * d.digits) + 0 : ℕ) : ℚ) / 10 ^ 1 = _
    rw [toRat, ← pow_toNat hexponent]
    push_cast
    ring

/-- The point stands among the digits. -/
def Written.ofSplit (hd : d.digits ≠ 0) (hexponent : d.exponent < 0)
    (hplaces : (-d.exponent).toNat < d.digitText.length) : Written d.toRat where
  whole := d.digitText.take (d.digitText.length - (-d.exponent).toNat)
  fraction := d.digitText.drop (d.digitText.length - (-d.exponent).toNat)
  whole_ne := List.ne_nil_of_length_pos (by rw [List.length_take]; omega)
  fraction_ne := List.ne_nil_of_length_pos (by rw [List.length_drop]; omega)
  whole_digits c hc := digitText_digits c (List.mem_of_mem_take hc)
  fraction_digits c hc := digitText_digits c (List.mem_of_mem_drop hc)
  head hhead := by
    rw [List.head?_take, if_neg (by omega)] at hhead
    exact absurd hhead (head_digitText hd)
  value := by
    have hlength : (d.digitText.drop (d.digitText.length - (-d.exponent).toNat)).length =
        (-d.exponent).toNat := by
      rw [List.length_drop]
      omega
    rw [List.take_append_drop, value_digitText, hlength, toRat, pow_toNat (by omega), zpow_neg,
      div_inv_eq_mul]

/-- All digits stand after the point. -/
def Written.ofFraction (hexponent : d.exponent < 0)
    (hplaces : d.digitText.length ≤ (-d.exponent).toNat) : Written d.toRat where
  whole := ['0']
  fraction := List.replicate ((-d.exponent).toNat - d.digitText.length) '0' ++ d.digitText
  whole_ne := List.cons_ne_nil _ _
  fraction_ne := List.append_ne_nil_of_right_ne_nil _ digitText_ne
  whole_digits := .replicate_zero 1
  fraction_digits := AllDigits.append (.replicate_zero _) digitText_digits
  head _ := rfl
  value := by
    have hlength : (List.replicate ((-d.exponent).toNat - d.digitText.length) '0' ++
        d.digitText).length = (-d.exponent).toNat := by
      rw [List.length_append, List.length_replicate]
      omega
    rw [Nat.ofDigitChars_append, Nat.ofDigitChars_append, hlength]
    change ((Nat.ofDigitChars 10 d.digitText (Nat.ofDigitChars 10 _ 0) : ℕ) : ℚ) / _ = _
    rw [Nat.ofDigitChars_replicate_zero, Nat.mul_zero, value_digitText, toRat,
      pow_toNat (by omega), zpow_neg, div_inv_eq_mul]

theorem written_positional (hd : d.digits = 0 → d.exponent = 0) :
    ∃ w : Written d.toRat, d.positional.toList = w.text := by
  unfold positional
  dsimp only
  split_ifs with hexponent hplaces
  · exact ⟨.ofWhole hd hexponent, String.toList_ofList⟩
  · have hpositive : d.digits ≠ 0 := fun hzero => hexponent (hd hzero).ge
    exact ⟨.ofSplit hpositive (by omega) hplaces, String.toList_ofList⟩
  · exact ⟨.ofFraction (by omega) (by omega), String.toList_ofList⟩

end Positional

end Decimal
namespace Toml

theorem cutAt_none {isMark : Char → Bool} {cs : List Char} (h : ∀ c ∈ cs, isMark c = false) :
    cutAt isMark cs = (cs, none) := by
  have hdrop : cs.dropWhile (!isMark ·) = [] :=
    List.dropWhile_eq_nil_iff.mpr fun c hc => by rw [h c hc]; rfl
  unfold cutAt
  rw [hdrop]

theorem cutAt_some {isMark : Char → Bool} {cs ds : List Char} {mark : Char}
    (h : ∀ c ∈ cs, isMark c = false) (hmark : isMark mark = true) :
    cutAt isMark (cs ++ mark :: ds) = (cs, some ds) := by
  have hall : ∀ c ∈ cs, (!isMark c) = true := fun c hc => by rw [h c hc]; rfl
  have hend : ∀ c, (mark :: ds).head? = some c → (!isMark c) = false := by
    rintro _ ⟨⟩
    rw [hmark]
    rfl
  unfold cutAt
  rw [dropWhile_run hall hend, takeWhile_run hall hend]

/-- The sign of a number as it is printed. -/
def signText (negative : Bool) : List Char := if negative then ['-'] else []

section Written
variable {v : ℚ} (w : Decimal.Written v)

theorem head_written : ∃ c rest, w.text = c :: rest ∧ c.isDigit = true := by
  obtain ⟨c, rest, hwhole⟩ := List.exists_cons_of_ne_nil w.whole_ne
  refine ⟨c, rest ++ '.' :: w.fraction, ?_, w.whole_digits c (by rw [hwhole]; simp)⟩
  rw [Decimal.Written.text, hwhole]
  rfl

theorem mem_written {c : Char} (hc : c ∈ w.text) : c.isDigit = true ∨ c = '.' := by
  rw [Decimal.Written.text, List.mem_append, List.mem_cons] at hc
  rcases hc with hc | rfl | hc
  · exact .inl (w.whole_digits c hc)
  · exact .inr rfl
  · exact .inl (w.fraction_digits c hc)

/-- The sign that was printed is taken off again. -/
theorem takeSign_written (negative : Bool) :
    takeSign (signText negative ++ w.text) = (negative, w.text) := by
  obtain ⟨c, rest, htext, hc⟩ := head_written w
  rw [htext]
  cases negative with
  | true => rfl
  | false =>
    change takeSign (c :: rest) = _
    unfold takeSign
    split
    · exact absurd hc (by rename_i heq; cases heq; decide)
    · exact absurd hc (by rename_i heq; cases heq; decide)
    · rfl

/-- A written number is read as the float nearest to it, with its sign. -/
theorem float?_written (negative : Bool) {x : Float}
    (hx : nearestFloat (w.whole ++ w.fraction) (0 - w.fraction.length) = x)
    (hinf : x.isInf = false) :
    float? (signText negative ++ w.text) = some (.float (if negative then -x else x)) := by
  have hpoint : '.' ∈ w.text := by
    simp [Decimal.Written.text]
  have hmarks : cutAt (fun c => c = 'e' || c = 'E') w.text = (w.text, none) := by
    apply cutAt_none
    intro c hc
    rcases mem_written w hc with h | rfl
    · rw [Bool.or_eq_false_iff, decide_eq_false_iff_not, decide_eq_false_iff_not]
      constructor <;> rintro rfl <;> exact absurd h (by decide)
    · rfl
  have hcut : cutAt (· = '.') w.text = (w.whole, some w.fraction) := by
    refine cutAt_some (fun c hc => ?_) (by decide)
    rw [decide_eq_false_iff_not]
    rintro rfl
    exact absurd (w.whole_digits '.' hc) (by decide)
  unfold float?
  rw [takeSign_written w negative]
  dsimp only
  rw [if_neg (fun heq => absurd (heq ▸ hpoint) (by decide)),
    if_neg (fun heq => absurd (heq ▸ hpoint) (by decide)), hmarks]
  dsimp only
  rw [hcut]
  dsimp only
  rw [decimal?_digits w.whole_ne w.whole_digits w.head,
    separated?_digits w.fraction_ne w.fraction_digits]
  change (if (nearestFloat (w.whole ++ w.fraction) (0 - w.fraction.length)).isInf = true
    then none else _) = _
  rw [hx, hinf]
  rfl

theorem two_pow_le_ten_pow : (2 : ℚ) ^ (1200 : ℤ) ≤ 10 ^ 400 := by
  rw [show (1200 : ℤ) = ((3 * 400 : ℕ) : ℤ) from rfl, zpow_natCast, pow_mul]
  exact pow_le_pow_left₀ (by norm_num) (by norm_num) 400

theorem allDigits_written : AllDigits (w.whole ++ w.fraction) :=
  w.whole_digits.append w.fraction_digits

theorem natOfBase_written :
    (natOfBase 10 (w.whole ++ w.fraction) : ℚ) = v * 10 ^ w.fraction.length := by
  rw [natOfBase_eq (allDigits_written w), ← div_eq_iff (by positivity), w.value]

omit w in
/-- The reader does not take the number for one that is too small or too large for a float. -/
theorem places_in_range {m places size : ℕ} (hvalue : (m : ℚ) = v * 10 ^ places)
    (hleast : 10 ^ (size - 1) ≤ m) (hmost : m < 10 ^ size) (hlow : (2 : ℚ) ^ (-1076 : ℤ) ≤ v)
    (hhigh : v < 10 ^ 400) : ¬ 0 - (places : ℤ) + size < -400 ∧ ¬ 400 < 0 - (places : ℤ) + size := by
  have hpower : (0 : ℚ) < 10 ^ places := by positivity
  refine ⟨fun hsmall => ?_, fun hlarge => ?_⟩
  · have hm : m * 10 ^ 400 < 10 ^ places := by
      calc m * 10 ^ 400 < 10 ^ size * 10 ^ 400 := Nat.mul_lt_mul_of_pos_right hmost (by positivity)
        _ = 10 ^ (size + 400) := (pow_add 10 size 400).symm
        _ ≤ 10 ^ places := Nat.pow_le_pow_right (by decide) (by omega)
    have hm : (m : ℚ) * 10 ^ 400 < 10 ^ places := by exact_mod_cast hm
    have htiny : v * 10 ^ 400 < 1 := by
      rw [hvalue, mul_right_comm] at hm
      exact (mul_lt_iff_lt_one_left hpower).mp hm
    have hone : (1 : ℚ) ≤ 2 ^ (-1076 : ℤ) * 2 ^ (1200 : ℤ) := by
      rw [← zpow_add₀ (by norm_num)]
      exact one_le_zpow₀ (by norm_num) (by norm_num)
    have hv : 0 ≤ v := (two_zpow_pos _).le.trans hlow
    exact absurd htiny (not_lt.mpr
      (hone.trans (mul_le_mul hlow two_pow_le_ten_pow (two_zpow_pos _).le hv)))
  · have hm : 10 ^ 400 * 10 ^ places ≤ m := by
      rw [← pow_add]
      exact (Nat.pow_le_pow_right (by decide) (by omega)).trans hleast
    have hm : (10 : ℚ) ^ 400 * 10 ^ places ≤ m := by exact_mod_cast hm
    rw [hvalue] at hm
    exact absurd (le_of_mul_le_mul_right hm hpower) (not_le.mpr hhigh)

/-- Digits with a fraction are read as the float nearest to the number that they state. -/
theorem nearestFloat_written (hlow : (2 : ℚ) ^ (-1076 : ℤ) ≤ v) (hhigh : v < 10 ^ 400) :
    nearestFloat (w.whole ++ w.fraction) (0 - w.fraction.length) = roundedFloat v := by
  have hv : 0 < v := (two_zpow_pos _).trans_le hlow
  have hvalue := natOfBase_written w
  have hbounds := ofDigitChars_bounds (allDigits_written w)
  rw [← natOfBase_eq (allDigits_written w)] at hbounds
  have hlength : 0 < w.fraction.length := List.length_pos_of_ne_nil w.fraction_ne
  unfold nearestFloat
  dsimp only
  generalize natOfBase 10 (w.whole ++ w.fraction) = m at hvalue hbounds
  generalize ((w.whole ++ w.fraction).dropWhile (· = '0')).length = size at hbounds
  generalize w.fraction.length = places at hvalue hlength
  have hpower : (0 : ℚ) < 10 ^ places := by positivity
  have hm : 0 < m := by
    have : (0 : ℚ) < m := hvalue ▸ mul_pos hv hpower
    exact_mod_cast this
  obtain ⟨hleast, hmost⟩ := hbounds hm
  obtain ⟨hnotSmall, hnotLarge⟩ := places_in_range hvalue hleast hmost hlow hhigh
  have hv' : v = m / 10 ^ places := by rw [hvalue, mul_div_cancel_right₀ _ hpower.ne']
  rw [if_neg (not_or.mpr ⟨hm.ne', hnotSmall⟩), if_neg hnotLarge, if_pos (by omega),
    show (0 - (places : ℤ)).natAbs = places by omega, hv']
  exact ofScientific_eq_roundedFloat hm (hv' ▸ hlow) hlength

theorem nearestFloat_zero (hv : v = 0) :
    nearestFloat (w.whole ++ w.fraction) (0 - w.fraction.length) = 0.0 := by
  have hvalue := natOfBase_written w
  subst hv
  rw [zero_mul, Nat.cast_eq_zero] at hvalue
  unfold nearestFloat
  dsimp only
  rw [hvalue, if_pos (.inl rfl)]

end Written

section Float
variable {x : Float} {negative : Bool} {m : ℕ} {e : ℤ}

theorem isInf_of_ofFloat (h : FloatParts.ofFloat x = .finite false m e) : x.isInf = false := by
  change x.toModel.unpack.isInf = false
  rcases Nat.eq_zero_or_pos m with rfl | hm
  · rw [FloatParts.unpack_of_ofFloat_zero h]
    rfl
  · rw [FloatParts.unpack_of_ofFloat hm h]
    rfl

/-- The positional text of the shortest decimal is read as the float, whatever its sign. -/
theorem nearestFloat_shortest (hc : FloatParts.Canonical m e)
    (w : Decimal.Written (Decimal.shortest m e).toRat) :
    FloatParts.ofFloat (nearestFloat (w.whole ++ w.fraction) (0 - w.fraction.length)) =
      .finite false m e := by
  rcases Nat.eq_zero_or_pos m with rfl | hm
  · rw [nearestFloat_zero w (by simp [Decimal.shortest, Decimal.toRat]), hc.normal (by decide)]
    decide
  · have hcontained := Decimal.shortest_contained hm hc
    obtain ⟨hlow, hhigh⟩ := hcontained.bounds hm
    have he := two_zpow_pos e
    rw [nearestFloat_written w]
    · exact hcontained.rounds hm hc
    · have hone : (1 : ℚ) ≤ m := by exact_mod_cast hm
      calc (2 : ℚ) ^ (-1076 : ℤ) ≤ 2 ^ (e - 1) :=
            zpow_le_zpow_right₀ (by norm_num) (by have := hc.low; omega)
        _ = 1 / 2 * 2 ^ e := by
          rw [zpow_sub_one₀ (by norm_num)]
          ring
        _ ≤ _ := mul_le_mul_of_nonneg_right (by split_ifs <;> linarith) he.le
        _ ≤ _ := hlow
    · have hm53 : (m : ℚ) < 2 ^ 53 := by exact_mod_cast hc.fits
      calc (Decimal.shortest m e).toRat ≤ (m + 1 / 2) * 2 ^ e := hhigh
        _ ≤ 2 ^ 54 * 2 ^ (971 : ℤ) :=
          mul_le_mul (by linarith) (zpow_le_zpow_right₀ (by norm_num) hc.high) he.le (by norm_num)
        _ < 2 ^ (1200 : ℤ) := by
          rw [← zpow_natCast, ← zpow_add₀ (by norm_num)]
          exact zpow_lt_zpow_right₀ (by norm_num) (by norm_num)
        _ ≤ 10 ^ 400 := two_pow_le_ten_pow

theorem shortest_zero_exponent (hm : (Decimal.shortest m e).digits = 0)
    (hc : FloatParts.Canonical m e) : (Decimal.shortest m e).exponent = 0 := by
  rcases Nat.eq_zero_or_pos m with rfl | hpos
  · rfl
  · have := Decimal.shortest_pos hpos hc
    rw [Decimal.toRat, hm, Nat.cast_zero, zero_mul] at this
    exact absurd this (lt_irrefl 0)

variable (h : FloatParts.ofFloat x = .finite negative m e)
include h

/-- The text of a float is its sign and a number in positional notation. -/
theorem floatForm_eq : ∃ w : Decimal.Written (Decimal.shortest m e).toRat,
    (floatForm x).toList = signText negative ++ w.text := by
  obtain ⟨w, hw⟩ := Decimal.written_positional fun hzero =>
    shortest_zero_exponent hzero (FloatParts.canonical_of_ofFloat h)
  refine ⟨w, ?_⟩
  unfold floatForm
  rw [h]
  dsimp only
  rw [String.toList_append, hw]
  cases negative <;> rfl

theorem float?_floatForm : float? (floatForm x).toList = some (.float x) := by
  obtain ⟨w, hw⟩ := floatForm_eq h
  have hparts := nearestFloat_shortest (FloatParts.canonical_of_ofFloat h) w
  rw [hw, float?_written w negative rfl (isInf_of_ofFloat hparts)]
  congr 2
  cases negative with
  | false => exact FloatParts.eq_of_ofFloat hparts h
  | true => exact FloatParts.eq_of_ofFloat (FloatParts.ofFloat_neg hparts) h

theorem mem_floatForm {c : Char} (hc : c ∈ (floatForm x).toList) :
    c.isDigit = true ∨ c = '.' ∨ c = '-' := by
  obtain ⟨w, hw⟩ := floatForm_eq h
  rw [hw, List.mem_append] at hc
  rcases hc with hc | hc
  · cases negative with
    | false => cases hc
    | true => exact .inr (.inr (List.mem_singleton.mp hc))
  · exact (mem_written w hc).imp_right .inl

/-- A printed float is read as a float, and not as a whole number, a date or a name. -/
theorem scalar?_floatForm : scalar? (floatForm x).toList = some (.float x) := by
  obtain ⟨w, hw⟩ := floatForm_eq h
  have hinteger : integer? (floatForm x).toList = none := by
    rw [integer?_eq, hw, takeSign_written, decimal?_eq_none (c := '.')]
    · rfl
    · simp [Decimal.Written.text]
    · rfl
    · decide
    · intro c hc
      have := mem_floatForm h (List.mem_of_getElem? hc)
      refine ⟨?_, ?_, ?_⟩ <;> rintro rfl <;>
        rcases this with hc | hc | hc <;> exact absurd hc (by decide)
  have hdatetime : datetime? (floatForm x).toList = none := by
    apply datetime?_eq_none
    · intro hdash
      rw [hw] at hdash
      have hdash : '-' ∈ w.text := by
        cases negative with
        | true => exact hdash
        | false => exact List.mem_of_mem_tail hdash
      rcases mem_written w hdash with hc | hc <;> exact absurd hc (by decide)
    · intro hcolon
      rcases mem_floatForm h hcolon with hc | hc | hc <;> exact absurd hc (by decide)
  rw [scalar?_eq, hinteger, hdatetime, float?_floatForm h]
  · rfl
  · intro hhead
    rcases mem_floatForm h (List.mem_of_head? hhead) with hc | hc | hc <;> exact absurd hc (by decide)
  · intro hhead
    rcases mem_floatForm h (List.mem_of_head? hhead) with hc | hc | hc <;> exact absurd hc (by decide)

end Float
end Toml
end Reconciliation
