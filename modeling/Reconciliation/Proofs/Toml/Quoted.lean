import Mathlib.Tactic.SplitIfs
import Reconciliation.Toml.Printer
import Reconciliation.Toml.Quoted

/-!
Strings in TOML text. Whatever form a string is printed in, it is read back: the forms without
escapes hold no character that could end them early, the forms with escapes write such characters
in a way that is understood, and of the quotes before a closing triple the own ones are told apart.
-/
namespace Reconciliation.Toml

/-- Characters that may stand in a string as they are. -/
def IsPlain (c : Char) : Prop := 32 ≤ c.toNat ∧ c.toNat ≠ 127

instance (c : Char) : Decidable (IsPlain c) := inferInstanceAs (Decidable (_ ∧ _))

theorem IsPlain.not_isControl {c : Char} (h : IsPlain c) : isControl c = false := by
  unfold isControl
  have : ¬ c.toNat < 32 := Nat.not_lt.mpr h.1
  simp [this, h.2]

section Escapes

theorem hexValue_upperHex : ∀ k < 16, Json.hexValue? (Nat.digitChar k).toUpper = some k := by
  decide

theorem hexNumber?_upperHex {n : Nat} (hn : n < 256) (rest : List Char) :
    hexNumber? 4 ('0' :: '0' :: upperHex (n / 16) :: upperHex n :: rest) =
      some (Char.ofNat n, rest) := by
  have hhigh : Json.hexValue? (upperHex (n / 16)) = some (n / 16) := by
    rw [upperHex, Nat.mod_eq_of_lt (by omega), hexValue_upperHex _ (by omega)]
  have hlow : Json.hexValue? (upperHex n) = some (n % 16) := hexValue_upperHex _ (by omega)
  have hzero : Json.hexValue? '0' = some 0 := rfl
  have hvalue : (n / 16) * 16 + n % 16 = n := by omega
  have hscalar : n < 0xD800 := by omega
  simp [hexNumber?, hhigh, hlow, hzero, hvalue, hscalar]

/-- The text is an escape of the character, and its backslash does not continue a line. -/
def Escapes (text : List Char) (c : Char) : Prop :=
  ∃ d ds, text = '\\' :: d :: ds ∧ d ∉ [' ', '\t', '\n', '\r'] ∧
    ∀ rest, escape? (d :: ds ++ rest) = some (c, rest)

/-- The escape of a control character stands for that character. -/
theorem escapes_controlEscape {c : Char} (hc : ¬ IsPlain c) : Escapes (controlEscape c).toList c := by
  have hsmall : c.toNat < 128 := by
    unfold IsPlain at hc
    omega
  unfold controlEscape
  split_ifs with hb ht hn hf hr
  · refine ⟨'b', [], rfl, by decide, fun rest => ?_⟩
    rw [← Char.ofNat_toNat c, hb]
    rfl
  · exact ⟨'t', [], rfl, by decide, fun rest => by rw [ht]; rfl⟩
  · exact ⟨'n', [], rfl, by decide, fun rest => by rw [hn]; rfl⟩
  · refine ⟨'f', [], rfl, by decide, fun rest => ?_⟩
    rw [← Char.ofNat_toNat c, hf]
    rfl
  · exact ⟨'r', [], rfl, by decide, fun rest => by rw [hr]; rfl⟩
  · refine ⟨'u', ['0', '0', upperHex (c.toNat / 16), upperHex c.toNat], String.toList_ofList,
      by decide, fun rest => ?_⟩
    have := hexNumber?_upperHex (by omega : c.toNat < 256) rest
    rwa [Char.ofNat_toNat] at this

theorem escapes_backslash : Escapes ['\\', '\\'] '\\' :=
  ⟨'\\', [], rfl, by decide, fun _ => rfl⟩

theorem escapes_quote : Escapes ['\\', '"'] '"' :=
  ⟨'"', [], rfl, by decide, fun _ => rfl⟩

end Escapes

/-- The number of quotes at the start of a text. -/
def leading (quote : Char) (cs : List Char) : Nat := (cs.takeWhile (· = quote)).length

/-- No part of the text has more than so many quotes in a row. -/
def RunsWithin (quote : Char) (n : Nat) (cs : List Char) : Prop :=
  ∀ t, t <:+ cs → leading quote t ≤ n

/-- The longest run of quotes bounds every run in the text. -/
theorem longestRun_bounds (quote : Char) (cs : List Char) : ∀ best run : Nat,
    let final := (cs.foldl (fun (best, run) d =>
      if d = quote then (max best (run + 1), run + 1) else (best, 0)) (best, run)).1
    best ≤ final ∧ RunsWithin quote final cs ∧
      (leading quote cs = 0 ∨ run + leading quote cs ≤ final) := by
  induction cs with
  | nil =>
    intro best run
    exact ⟨Nat.le_refl _, fun t ht => by rw [List.suffix_nil.mp ht]; exact Nat.zero_le _, .inl rfl⟩
  | cons d cs ih =>
    intro best run
    dsimp only
    rw [List.foldl_cons]
    by_cases hd : d = quote
    · obtain ⟨hbest, hruns, hlead⟩ := ih (max best (run + 1)) (run + 1)
      rw [if_pos hd]
      generalize (List.foldl _ (max best (run + 1), run + 1) cs).1 = final at hbest hruns hlead ⊢
      have hleading : leading quote (d :: cs) = leading quote cs + 1 := by
        simp [leading, hd]
      have hfirst : run + leading quote (d :: cs) ≤ final := by
        rcases hlead with hzero | hlead
        · rw [hleading, hzero]
          exact Nat.le_trans (Nat.le_max_right _ _) hbest
        · rw [hleading]
          omega
      refine ⟨by omega, fun t ht => ?_, .inr hfirst⟩
      rcases List.suffix_cons_iff.mp ht with rfl | ht
      · omega
      · exact hruns t ht
    · obtain ⟨hbest, hruns, -⟩ := ih best 0
      rw [if_neg hd]
      generalize (List.foldl _ (best, 0) cs).1 = final at hbest hruns ⊢
      have hleading : leading quote (d :: cs) = 0 := by
        simp [leading, hd]
      refine ⟨hbest, fun t ht => ?_, .inl hleading⟩
      rcases List.suffix_cons_iff.mp ht with rfl | ht
      · omega
      · exact hruns t ht

theorem runsWithin_longestRun (quote : Char) (cs : List Char) :
    RunsWithin quote (longestRun quote cs) cs :=
  (longestRun_bounds quote cs 0 0).2.1

theorem notMem_of_longestRun {quote : Char} {cs : List Char} (h : longestRun quote cs = 0) :
    quote ∉ cs := by
  intro hmem
  obtain ⟨before, after, rfl⟩ := List.append_of_mem hmem
  have hruns := runsWithin_longestRun quote (before ++ quote :: after)
  rw [h] at hruns
  have := hruns (quote :: after) (List.suffix_append _ _)
  simp [leading] at this

/-- One character of an escaped string, by what is printed for it. -/
inductive Printed (severalLines : Bool) (run : Nat) (c : Char) (rest : List Char) :
    List Char → Prop
  | quote (hc : c = '"') (hlines : severalLines = true) (hrun : run < 2) :
    Printed severalLines run c rest ('"' :: (escapedFrom severalLines (run + 1) rest).toList)
  | escape (text : List Char) (h : Escapes text c) :
    Printed severalLines run c rest (text ++ (escapedFrom severalLines 0 rest).toList)
  | lineBreak (hc : c = '\n') (hlines : severalLines = true) :
    Printed severalLines run c rest ('\n' :: (escapedFrom severalLines 0 rest).toList)
  | plain (hc : IsPlain c) (hquote : c ≠ '"') (hbackslash : c ≠ '\\') :
    Printed severalLines run c rest (c :: (escapedFrom severalLines 0 rest).toList)

/-- Each character is printed as itself or as an escape that stands for it. -/
theorem printed_escapedFrom (severalLines : Bool) (run : Nat) (c : Char) (rest : List Char) :
    Printed severalLines run c rest (escapedFrom severalLines run (c :: rest)).toList := by
  unfold escapedFrom
  split_ifs with hquote hlines hlow hlow hbackslash hbreak hcontrol <;> rw [String.toList_append]
  · exact .quote hquote hlines hlow
  · exact .escape _ (hquote ▸ escapes_quote)
  · exact absurd hlow (Nat.not_lt_zero run)
  · exact .escape _ (hquote ▸ escapes_quote)
  · exact .escape _ (hbackslash ▸ escapes_backslash)
  · rw [Bool.and_eq_true, decide_eq_true_eq] at hbreak
    exact .lineBreak hbreak.1 hbreak.2
  · refine .escape _ (escapes_controlEscape ?_)
    rw [Bool.or_eq_true, decide_eq_true_eq, decide_eq_true_eq] at hcontrol
    unfold IsPlain
    omega
  · rw [Bool.or_eq_true, decide_eq_true_eq, decide_eq_true_eq] at hcontrol
    rw [Char.toString_eq_singleton, String.toList_singleton]
    exact .plain ⟨by omega, by omega⟩ hquote hbackslash

/-- Escaping makes a text no shorter. -/
theorem length_le_escapedFrom (severalLines : Bool) (cs : List Char) :
    ∀ run, cs.length ≤ (escapedFrom severalLines run cs).toList.length := by
  induction cs with
  | nil => exact fun _ => Nat.zero_le _
  | cons c cs ih =>
    intro run
    have hprinted := printed_escapedFrom severalLines run c cs
    generalize (escapedFrom severalLines run (c :: cs)).toList = text at hprinted ⊢
    cases hprinted with
    | quote => exact Nat.succ_le_succ (ih (run + 1))
    | escape text h =>
      obtain ⟨d, ds, rfl, -, -⟩ := h
      have := ih 0
      simp only [List.length_cons, List.length_append]
      omega
    | lineBreak => exact Nat.succ_le_succ (ih 0)
    | plain => exact Nat.succ_le_succ (ih 0)

section OneLine

theorem basic?_escape {text : List Char} {c : Char} (h : Escapes text c) (fuel : Nat)
    (acc rest : List Char) : basic? (fuel + 1) acc (text ++ rest) = basic? fuel (c :: acc) rest := by
  obtain ⟨d, ds, rfl, -, hread⟩ := h
  have := hread rest
  rw [List.cons_append] at this
  simp only [List.cons_append, basic?, this]
  rfl

theorem basic?_plain {c : Char} (hc : IsPlain c) (hquote : c ≠ '"') (hbackslash : c ≠ '\\')
    (fuel : Nat) (acc rest : List Char) :
    basic? (fuel + 1) acc (c :: rest) = basic? fuel (c :: acc) rest := by
  rw [basic?, hc.not_isControl]
  · rfl
  · exact hquote
  · exact hbackslash

/-- The inside of a basic string on one line is read back. -/
theorem basic?_escapedFrom (cs : List Char) : ∀ (fuel : Nat) (acc rest : List Char),
    cs.length < fuel → basic? fuel acc ((escapedFrom false 0 cs).toList ++ '"' :: rest) =
      some (String.ofList (acc.reverse ++ cs), rest) := by
  induction cs with
  | nil =>
    intro fuel acc rest hfuel
    obtain ⟨fuel, rfl⟩ := Nat.exists_eq_succ_of_ne_zero (Nat.ne_of_gt hfuel)
    rw [List.append_nil]
    rfl
  | cons c cs ih =>
    intro fuel acc rest hfuel
    obtain ⟨fuel, rfl⟩ := Nat.exists_eq_succ_of_ne_zero (Nat.ne_of_gt (Nat.zero_lt_of_lt hfuel))
    rw [List.length_cons, Nat.succ_eq_add_one, Nat.add_lt_add_iff_right] at hfuel
    have hnext := ih fuel (c :: acc) rest hfuel
    rw [List.reverse_cons, List.append_assoc, List.singleton_append] at hnext
    have hprinted := printed_escapedFrom false 0 c cs
    generalize (escapedFrom false 0 (c :: cs)).toList = text at hprinted ⊢
    cases hprinted with
    | quote hc hlines => cases hlines
    | escape text h => rw [List.append_assoc, basic?_escape h, hnext]
    | lineBreak hc hlines => cases hlines
    | plain hc hquote hbackslash =>
      rw [List.cons_append, basic?_plain hc hquote hbackslash, hnext]

/-- A literal string ends at its first quote, so it is read back if it holds none. -/
theorem literal?_text {cs : List Char} (hquote : '\'' ∉ cs) (hplain : ∀ c ∈ cs, IsPlain c)
    (rest : List Char) : literal? (cs ++ '\'' :: rest) = some (String.ofList cs, rest) := by
  have hother : ∀ c ∈ cs, decide (c ≠ '\'') = true := fun c hc =>
    decide_eq_true fun heq => hquote (heq ▸ hc)
  have htake : (cs ++ '\'' :: rest).takeWhile (· ≠ '\'') = cs := by
    rw [List.takeWhile_append_of_pos hother,
      List.takeWhile_cons_of_neg (by decide), List.append_nil]
  have hcontrol : cs.any isControl = false :=
    List.any_eq_false.mpr fun c hc => by
      rw [(hplain c hc).not_isControl]
      exact Bool.false_ne_true
  unfold literal?
  rw [htake]
  dsimp only
  rw [List.drop_left, hcontrol]
  rfl

end OneLine

section SeveralLines
variable {quote : Char}

/-- The quotes at the front are the same with more text behind, if there is something else than
quotes. -/
theorem leading_append {cs : List Char} (h : ∃ c ∈ cs, c ≠ quote) (rest : List Char) :
    leading quote (cs ++ rest) = leading quote cs := by
  obtain ⟨c, hc, hne⟩ := h
  induction cs with
  | nil => cases hc
  | cons d cs ih =>
    by_cases hd : d = quote
    · have hc : c ∈ cs := (List.mem_cons.mp hc).resolve_left fun heq => hne (heq.trans hd)
      have := ih hc
      simp only [leading, List.cons_append, List.takeWhile_cons, hd, decide_true, if_true,
        List.length_cons] at this ⊢
      omega
    · simp [leading, hd]

theorem closing?_none {cs : List Char} (h : leading quote cs ≤ 2) : closing? quote cs = none :=
  if_pos (Nat.lt_succ_of_le h)

/-- Up to two quotes before the closing ones belong to the text. -/
theorem closing?_own {k : Nat} (hk : k ≤ 2) {rest : List Char} (hrest : rest.head? ≠ some quote) :
    closing? quote (List.replicate k quote ++ quote :: quote :: quote :: rest) = some (k, rest) := by
  have hjoin : List.replicate k quote ++ quote :: quote :: quote :: rest =
      List.replicate (k + 3) quote ++ rest := by
    rw [← List.replicate_append_replicate, List.append_assoc]
    rfl
  have hend : rest.takeWhile (· = quote) = [] := by
    cases rest with
    | nil => rfl
    | cons c rest =>
      exact List.takeWhile_cons_of_neg fun h => hrest (congrArg some (of_decide_eq_true h))
  have hrun : ((List.replicate (k + 3) quote ++ rest).takeWhile (· = quote)).length = k + 3 := by
    rw [List.takeWhile_append_of_pos (by simp), hend, List.append_nil, List.length_replicate]
  have hmin : min (k + 3) 5 = k + 3 := by omega
  unfold closing?
  rw [hjoin, hrun]
  dsimp only
  rw [hmin, if_neg (by omega), Nat.add_sub_cancel,
    List.drop_left' (List.length_replicate ..)]

variable {escapes : Bool} {fuel : Nat} {acc : List Char}

theorem lines?_end {k : Nat} (hk : k ≤ 2) {rest : List Char} (hrest : rest.head? ≠ some quote) :
    lines? quote escapes (fuel + 1) acc (List.replicate k quote ++ quote :: quote :: quote :: rest) =
      some (String.ofList (acc.reverse ++ List.replicate k quote), rest) := by
  rw [lines?.eq_def]
  dsimp only
  rw [closing?_own hk hrest]

theorem lines?_break {cs : List Char} (hquote : quote ≠ '\n') :
    lines? quote escapes (fuel + 1) acc ('\n' :: cs) = lines? quote escapes fuel ('\n' :: acc) cs := by
  have hnone : closing? quote ('\n' :: cs) = none := by
    apply closing?_none
    simp [leading, hquote.symm]
  rw [lines?.eq_def]
  dsimp only
  rw [hnone]
  rfl

theorem lineBreak?_plain {c : Char} (hc : IsPlain c) (cs : List Char) :
    lineBreak? (c :: cs) = none := by
  unfold lineBreak?
  split
  · rename_i heq
    cases heq
    exact absurd hc (by decide)
  · rename_i heq
    cases heq
    exact absurd hc (by decide)
  · rfl

/-- A plain character is read as itself, a quote too as long as no third one follows. -/
theorem lines?_plain {c : Char} {cs : List Char} (hc : IsPlain c)
    (hbackslash : escapes = true → c ≠ '\\') (hlead : leading quote (c :: cs) ≤ 2) :
    lines? quote escapes (fuel + 1) acc (c :: cs) = lines? quote escapes fuel (c :: acc) cs := by
  have hescape : ¬ (escapes && c = '\\' : Bool) = true := by
    rw [Bool.and_eq_true, decide_eq_true_eq]
    exact fun h => hbackslash h.1 h.2
  rw [lines?.eq_def]
  dsimp only
  rw [closing?_none hlead, lineBreak?_plain hc]
  dsimp only
  rw [if_neg hescape, hc.not_isControl]
  rfl

/-- A backslash before a character that is no blank continues no line. -/
theorem continuation?_none {c : Char} (hc : c ∉ [' ', '\t', '\n', '\r']) (cs : List Char) :
    continuation? (c :: cs) = none := by
  have hblank : ¬ (c = ' ' || c = '\t' : Bool) = true := by
    rw [Bool.or_eq_true, decide_eq_true_eq, decide_eq_true_eq]
    rintro (rfl | rfl) <;> simp at hc
  have hbreak : lineBreak? (c :: cs) = none := by
    unfold lineBreak?
    split
    · rename_i heq
      cases heq
      simp at hc
    · rename_i heq
      cases heq
      simp at hc
    · rfl
  have hdrop : (c :: cs).dropWhile (fun c => c = ' ' || c = '\t') = c :: cs :=
    List.dropWhile_cons_of_neg hblank
  unfold continuation?
  rw [hdrop, hbreak]

/-- An escape is read as the character that it stands for. -/
theorem lines?_escape {text cs : List Char} {c : Char} (h : Escapes text c) :
    lines? '"' true (fuel + 1) acc (text ++ cs) = lines? '"' true fuel (c :: acc) cs := by
  obtain ⟨d, ds, rfl, hd, hread⟩ := h
  have hread := hread cs
  rw [List.cons_append] at hread
  have hnone : closing? '"' ('\\' :: d :: (ds ++ cs)) = none := closing?_none (Nat.zero_le 2)
  rw [List.cons_append, List.cons_append]
  rw [lines?.eq_def]
  dsimp only
  rw [hnone, lineBreak?_plain (by decide)]
  dsimp only
  rw [if_pos (by decide), continuation?_none hd, hread]
  rfl

theorem RunsWithin.tail {n : Nat} {c : Char} {cs : List Char} (h : RunsWithin quote n (c :: cs)) :
    RunsWithin quote n cs := fun t ht => h t (ht.trans (List.suffix_cons c cs))

theorem leading_replicate (k : Nat) : leading quote (List.replicate k quote) = k := by
  simp [leading]

/-- A text is a row of quotes, or it holds another character. -/
theorem replicate_or_other (cs : List Char) :
    cs = List.replicate cs.length quote ∨ ∃ c ∈ cs, c ≠ quote := by
  by_cases h : ∃ c ∈ cs, c ≠ quote
  · exact .inr h
  · exact .inl (List.eq_replicate_iff.mpr ⟨rfl, fun c hc =>
      Decidable.not_not.mp fun hne => h ⟨c, hc, hne⟩⟩)

/-- The inside of a string of several lines without escapes is read as it stands. -/
theorem lines?_text (hquote : quote ≠ '\n') (cs : List Char) : ∀ (fuel : Nat) (acc rest : List Char),
    RunsWithin quote 2 cs → (∀ c ∈ cs, IsPlain c ∨ c = '\n') → (escapes = true → '\\' ∉ cs) →
    cs.length < fuel → rest.head? ≠ some quote →
    lines? quote escapes fuel acc (cs ++ quote :: quote :: quote :: rest) =
      some (String.ofList (acc.reverse ++ cs), rest) := by
  induction cs with
  | nil =>
    intro fuel acc rest _ _ _ hfuel hrest
    obtain ⟨fuel, rfl⟩ := Nat.exists_eq_succ_of_ne_zero (Nat.ne_of_gt hfuel)
    exact lines?_end (Nat.zero_le 2) hrest
  | cons c cs ih =>
    intro fuel acc rest hruns hplain hbackslash hfuel hrest
    obtain ⟨fuel, rfl⟩ := Nat.exists_eq_succ_of_ne_zero (Nat.ne_of_gt (Nat.zero_lt_of_lt hfuel))
    rcases @replicate_or_other quote (c :: cs) with hall | hother
    · have hk := hruns (c :: cs) (List.suffix_refl _)
      rw [hall, leading_replicate] at hk
      rw [hall]
      exact lines?_end hk hrest
    have hlead := hruns (c :: cs) (List.suffix_refl _)
    rw [← leading_append hother (quote :: quote :: quote :: rest), List.cons_append] at hlead
    have hnext := ih fuel (c :: acc) rest hruns.tail (fun d hd => hplain d (by simp [hd]))
      (fun h hmem => hbackslash h (by simp [hmem]))
      (Nat.lt_of_succ_lt_succ hfuel) hrest
    rw [List.reverse_cons, List.append_assoc, List.singleton_append] at hnext
    rcases hplain c (by simp) with hc | rfl
    · rw [List.cons_append, lines?_plain hc (fun h heq => hbackslash h (by simp [heq])) hlead, hnext]
    · rw [List.cons_append, lines?_break hquote, hnext]

/-- Up to two quotes in a row are printed as they stand. -/
theorem escapedFrom_quotes (k : Nat) : ∀ run, run + k ≤ 2 →
    (escapedFrom true run (List.replicate k '"')).toList = List.replicate k '"' := by
  induction k with
  | zero => exact fun _ _ => rfl
  | succ k ih =>
    intro run hrun
    have hlow : run < 2 := by omega
    rw [List.replicate_succ, escapedFrom, if_pos rfl, if_pos rfl, if_pos hlow, String.toList_append,
      ih (run + 1) (by omega)]
    rfl

/-- A printed text that goes on has at most two quotes in a row at its start, those right before it
counted in. -/
theorem leading_escapedFrom (rest : List Char) (cs : List Char) : ∀ run, run ≤ 2 →
    ¬ (cs = List.replicate cs.length '"' ∧ run + cs.length ≤ 2) →
    run + leading '"' ((escapedFrom true run cs).toList ++ rest) ≤ 2 := by
  induction cs with
  | nil => exact fun run hrun hmore => absurd ⟨rfl, hrun⟩ hmore
  | cons c cs ih =>
    intro run hrun hmore
    have hprinted := printed_escapedFrom true run c cs
    generalize (escapedFrom true run (c :: cs)).toList = text at hprinted ⊢
    cases hprinted with
    | quote hc _ hlow =>
      have := ih (run + 1) hlow fun ⟨hall, hle⟩ => hmore ⟨by
        rw [List.length_cons, List.replicate_succ, ← hall, hc], by
        rw [List.length_cons]
        omega⟩
      have hstep : leading '"' ('"' :: (escapedFrom true (run + 1) cs).toList ++ rest) =
          leading '"' ((escapedFrom true (run + 1) cs).toList ++ rest) + 1 := by
        simp [leading]
      omega
    | escape text h =>
      obtain ⟨d, ds, rfl, -, -⟩ := h
      exact hrun
    | lineBreak => exact hrun
    | plain hc hquote =>
      have : leading '"' (c :: (escapedFrom true 0 cs).toList ++ rest) = 0 := by
        simp [leading, hquote]
      omega

/-- The inside of a basic string of several lines is read back. -/
theorem lines?_escapedFrom (cs : List Char) : ∀ (run fuel : Nat) (acc rest : List Char),
    run ≤ 2 → cs.length < fuel → rest.head? ≠ some '"' →
    lines? '"' true fuel acc ((escapedFrom true run cs).toList ++ '"' :: '"' :: '"' :: rest) =
      some (String.ofList (acc.reverse ++ cs), rest) := by
  induction cs with
  | nil =>
    intro run fuel acc rest _ hfuel hrest
    obtain ⟨fuel, rfl⟩ := Nat.exists_eq_succ_of_ne_zero (Nat.ne_of_gt hfuel)
    exact lines?_end (Nat.zero_le 2) hrest
  | cons c cs ih =>
    intro run fuel acc rest hrun hfuel hrest
    obtain ⟨fuel, rfl⟩ := Nat.exists_eq_succ_of_ne_zero (Nat.ne_of_gt (Nat.zero_lt_of_lt hfuel))
    by_cases hall : c :: cs = List.replicate (c :: cs).length '"' ∧ run + (c :: cs).length ≤ 2
    · rw [hall.1, escapedFrom_quotes _ run hall.2]
      exact lines?_end (by omega) hrest
    have hlead := leading_escapedFrom ('"' :: '"' :: '"' :: rest) (c :: cs) run hrun hall
    have hnext := fun run hrun => ih run fuel (c :: acc) rest hrun (Nat.lt_of_succ_lt_succ hfuel) hrest
    rw [List.reverse_cons, List.append_assoc, List.singleton_append] at hnext
    have hprinted := printed_escapedFrom true run c cs
    generalize (escapedFrom true run (c :: cs)).toList = text at hprinted hlead ⊢
    cases hprinted with
    | quote hc _ hlow =>
      subst hc
      rw [List.cons_append] at hlead ⊢
      rw [lines?_plain (by decide) (by decide) (by omega), hnext (run + 1) hlow]
    | escape text h => rw [List.append_assoc, lines?_escape h, hnext 0 (by omega)]
    | lineBreak hc _ => rw [List.cons_append, lines?_break (by decide), ← hc, hnext 0 (by omega)]
    | plain hc hquote hbackslash =>
      rw [List.cons_append] at hlead ⊢
      rw [lines?_plain hc (fun _ => hbackslash) (by omega), hnext 0 (by omega)]

end SeveralLines

section Forms

/-- A text of plain characters is printed as it is. -/
theorem escapedFrom_plain {cs : List Char} (h : ∀ c ∈ cs, IsPlain c ∧ c ≠ '"' ∧ c ≠ '\\') :
    (escapedFrom false 0 cs).toList = cs := by
  induction cs with
  | nil => rfl
  | cons c cs ih =>
    obtain ⟨hc, hquote, hbackslash⟩ := h c (by simp)
    have hbreak : ¬ (c = '\n' && false : Bool) = true := by simp
    have hcontrol : ¬ (c.toNat < 32 || c.toNat = 127 : Bool) = true := by
      rw [Bool.or_eq_true, decide_eq_true_eq, decide_eq_true_eq]
      unfold IsPlain at hc
      omega
    rw [escapedFrom, if_neg hquote, if_neg hbackslash, if_neg hbreak, if_neg hcontrol,
      String.toList_append, ih fun d hd => h d (by simp [hd]), Char.toString_eq_singleton,
      String.toList_singleton]
    rfl

section Shapes
variable {cs : List Char} (hcontrols : (Shape.ofList cs).controls = false)
include hcontrols

theorem plain_or_break {c : Char} (hc : c ∈ cs) : IsPlain c ∨ c = '\n' := by
  have := List.any_eq_false.mp hcontrols c hc
  rw [Bool.or_eq_true, Bool.and_eq_true, decide_eq_true_eq, decide_eq_true_eq,
    decide_eq_true_eq] at this
  unfold IsPlain
  by_cases hbreak : c = '\n'
  · exact .inr hbreak
  · exact .inl ⟨Nat.le_of_not_lt fun h => this (.inl ⟨h, hbreak⟩), fun h => this (.inr h)⟩

theorem plain_of_oneLine (hbreak : (Shape.ofList cs).lineBreak = false) {c : Char} (hc : c ∈ cs) :
    IsPlain c :=
  (plain_or_break hcontrols hc).resolve_right fun heq =>
    Bool.false_ne_true (hbreak.symm.trans (List.contains_iff_mem.mpr (heq ▸ hc)))

end Shapes

theorem notMem_of_backslash {cs : List Char} (h : (Shape.ofList cs).backslash = false) :
    '\\' ∉ cs := fun hmem =>
  Bool.false_ne_true (h.symm.trans (List.contains_iff_mem.mpr hmem))

theorem string?_basic {cs : List Char} (h : ∀ rest, cs ≠ '"' :: '"' :: rest) :
    string? ('"' :: cs) = basic? (cs.length + 1) [] cs := by
  unfold string?
  split
  · rename_i heq
    exact absurd (List.cons.inj heq).2 (h _)
  · rename_i heq
    cases heq
  · rfl

theorem string?_literal {cs : List Char} (h : ∀ rest, cs ≠ '\'' :: '\'' :: rest) :
    string? ('\'' :: cs) = literal? cs := by
  unfold string?
  split
  · rename_i heq
    cases heq
  · rename_i heq
    exact absurd (List.cons.inj heq).2 (h _)
  · rfl

theorem afterFirstBreak_of_plain {cs rest : List Char} (hne : cs ≠ [])
    (h : ∀ c ∈ cs, IsPlain c) : afterFirstBreak (cs ++ rest) = cs ++ rest := by
  obtain ⟨c, cs, rfl⟩ := List.exists_cons_of_ne_nil hne
  unfold afterFirstBreak
  rw [List.cons_append, lineBreak?_plain (h c (by simp))]
  rfl

/-- The line break that a string of several lines starts with is not part of it. -/
theorem afterFirstBreak_start {cs rest : List Char}
    (hcontrols : (Shape.ofList cs).controls = false) (hne : cs ≠ []) :
    afterFirstBreak ((if (Shape.ofList cs).lineBreak then "\n" else "").toList ++ (cs ++ rest)) =
      cs ++ rest := by
  cases hbreak : (Shape.ofList cs).lineBreak with
  | true => rfl
  | false =>
    change afterFirstBreak (cs ++ rest) = _
    exact afterFirstBreak_of_plain hne fun c hc => plain_of_oneLine hcontrols hbreak hc

variable {rest : List Char}

/-- An escaped text does not start with a quote. -/
theorem escapedFrom_head (cs tail : List Char) (hne : cs ≠ []) :
    ((escapedFrom false 0 cs).toList ++ tail).head? ≠ some '"' := by
  obtain ⟨c, cs, rfl⟩ := List.exists_cons_of_ne_nil hne
  have hprinted := printed_escapedFrom false 0 c cs
  generalize (escapedFrom false 0 (c :: cs)).toList = text at hprinted ⊢
  cases hprinted with
  | quote hc hlines => cases hlines
  | escape text h =>
    obtain ⟨d, ds, rfl, -, -⟩ := h
    rintro ⟨⟩
  | lineBreak hc hlines => cases hlines
  | plain hc hquote => exact fun heq => hquote (Option.some.inj heq)

/-- A string of one line is read back from its escaped form. -/
theorem string?_escaped (cs : List Char) (hdouble : rest.head? ≠ some '"') :
    string? ('"' :: ((escapedFrom false 0 cs).toList ++ '"' :: rest)) =
      some (String.ofList cs, rest) := by
  rw [string?_basic, basic?_escapedFrom, List.reverse_nil, List.nil_append]
  · have := length_le_escapedFrom false cs 0
    rw [List.length_append]
    omega
  · intro more heq
    rcases cs with _ | ⟨c, cs⟩
    · cases heq
      exact hdouble rfl
    · exact escapedFrom_head _ _ (List.cons_ne_nil c cs) (congrArg List.head? heq)

theorem string?_literal_text {cs : List Char} (hquote : '\'' ∉ cs) (hplain : ∀ c ∈ cs, IsPlain c)
    (hne : cs ≠ []) : string? ('\'' :: (cs ++ '\'' :: rest)) = some (String.ofList cs, rest) := by
  rw [string?_literal, literal?_text hquote hplain]
  intro more heq
  obtain ⟨c, cs, rfl⟩ := List.exists_cons_of_ne_nil hne
  rw [List.cons_append] at heq
  exact hquote (by rw [(List.cons.inj heq).1]; simp)

theorem RunsWithin.of_le {quote : Char} {cs : List Char} (h : longestRun quote cs ≤ 2) :
    RunsWithin quote 2 cs := fun t ht =>
  Nat.le_trans (runsWithin_longestRun quote cs t ht) h

theorem length_lt_started (start cs more : List Char) :
    cs.length < (start ++ (cs ++ more)).length + 1 := by
  simp only [List.length_append]
  omega

/-- A string of several lines with as many quotes as may stand there. -/
theorem lines?_started {quote : Char} {escapes : Bool} {cs : List Char} (hquote : quote ≠ '\n')
    (hne : cs ≠ []) (hcontrols : (Shape.ofList cs).controls = false)
    (hbackslash : escapes = true → '\\' ∉ cs) (hruns : longestRun quote cs ≤ 2)
    (hrest : rest.head? ≠ some quote) {fuel : Nat} (hfuel : cs.length < fuel) :
    lines? quote escapes fuel []
      (afterFirstBreak ((if (Shape.ofList cs).lineBreak then "\n" else "").toList ++
        (cs ++ quote :: quote :: quote :: rest))) = some (String.ofList cs, rest) := by
  rw [afterFirstBreak_start hcontrols hne, lines?_text hquote cs fuel [] rest (.of_le hruns)
    (fun c hc => plain_or_break hcontrols hc) hbackslash hfuel hrest]
  rfl

theorem toList_between (left s right : String) :
    (left ++ s ++ right).toList ++ rest = left.toList ++ (s.toList ++ (right.toList ++ rest)) := by
  rw [String.toList_append, String.toList_append, List.append_assoc, List.append_assoc]

/-- A printed string is read back, wherever no quote follows it. -/
theorem string?_textForm (s : String) (hdouble : rest.head? ≠ some '"')
    (hsingle : rest.head? ≠ some '\'') : string? ((textForm s).toList ++ rest) = some (s, rest) := by
  obtain ⟨cs, rfl⟩ : ∃ cs, s = String.ofList cs := ⟨s.toList, String.ofList_toList.symm⟩
  have hcs : (String.ofList cs).toList = cs := String.toList_ofList
  unfold textForm
  dsimp only
  rw [hcs]
  -- the forms in the order of preference, each without what would end it early
  by_cases hbasic : (!(Shape.ofList cs).controls && !(Shape.ofList cs).backslash &&
    (Shape.ofList cs).doubleRun = 0 && !(Shape.ofList cs).lineBreak : Bool) = true
  · rw [if_pos hbasic, toList_between, hcs]
    simp only [Bool.and_eq_true, Bool.not_eq_true', decide_eq_true_eq] at hbasic
    obtain ⟨⟨⟨hcontrols, hbackslash⟩, hrun⟩, hbreak⟩ := hbasic
    have hescaped := string?_escaped cs hdouble
    rwa [escapedFrom_plain fun c hc => ⟨plain_of_oneLine hcontrols hbreak hc, fun heq =>
      notMem_of_longestRun hrun (heq ▸ hc), fun heq =>
      notMem_of_backslash hbackslash (heq ▸ hc)⟩] at hescaped
  rw [if_neg hbasic]
  have hne : cs ≠ [] := by
    rintro rfl
    exact hbasic rfl
  by_cases hliteral : (!(Shape.ofList cs).controls && (Shape.ofList cs).singleRun = 0 &&
    !(Shape.ofList cs).lineBreak : Bool) = true
  · rw [if_pos hliteral, toList_between, hcs]
    simp only [Bool.and_eq_true, Bool.not_eq_true', decide_eq_true_eq] at hliteral
    obtain ⟨⟨hcontrols, hrun⟩, hbreak⟩ := hliteral
    exact string?_literal_text (notMem_of_longestRun hrun)
      (fun c hc => plain_of_oneLine hcontrols hbreak hc) hne
  rw [if_neg hliteral]
  by_cases hlines : (!(Shape.ofList cs).controls && !(Shape.ofList cs).backslash &&
    (Shape.ofList cs).doubleRun ≤ 2 : Bool) = true
  · rw [if_pos hlines, toList_between, hcs, String.toList_append, List.append_assoc]
    simp only [Bool.and_eq_true, Bool.not_eq_true', decide_eq_true_eq] at hlines
    obtain ⟨⟨hcontrols, hbackslash⟩, hruns⟩ := hlines
    exact lines?_started (by decide) hne hcontrols (fun _ => notMem_of_backslash hbackslash) hruns
      hdouble (length_lt_started _ cs _)
  rw [if_neg hlines]
  by_cases hliterals : (!(Shape.ofList cs).controls && (Shape.ofList cs).singleRun ≤ 2 : Bool) = true
  · rw [if_pos hliterals, toList_between, hcs, String.toList_append, List.append_assoc]
    simp only [Bool.and_eq_true, Bool.not_eq_true', decide_eq_true_eq] at hliterals
    obtain ⟨hcontrols, hruns⟩ := hliterals
    exact lines?_started (by decide) hne hcontrols (fun h => absurd h Bool.false_ne_true) hruns
      hsingle (length_lt_started _ cs _)
  rw [if_neg hliterals]
  by_cases hbreak : (Shape.ofList cs).lineBreak = true
  · rw [if_pos hbreak, toList_between]
    refine lines?_escapedFrom cs 0 _ [] rest (Nat.zero_le 2) ?_ hdouble
    exact Nat.lt_of_le_of_lt (length_le_escapedFrom true cs 0) (length_lt_started ['\n'] _ _)
  · rw [if_neg hbreak, toList_between]
    exact string?_escaped cs hdouble

end Forms

end Reconciliation.Toml
