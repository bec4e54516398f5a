import Reconciliation.Proofs.Toml.Number
import Reconciliation.Time.Timestamp

/-!
Points in time and their text. The date of a day exists and leads back to that day, and the text of
a point in time is read as that point.
-/
namespace Reconciliation.Timestamp

section Calendar

/-- A date that exists. -/
structure IsDate (y : ℤ) (m d : ℕ) : Prop where
  month_pos : 1 ≤ m
  month_le : m ≤ 12
  day_pos : 1 ≤ d
  day_le : d ≤ monthLength y m

/-- A day by years that begin in March: its era of four centuries, the century, the four years and
the year in them, and the day of that year. -/
structure DayParts (days : ℤ) where
  era : ℤ
  century : ℤ
  quad : ℤ
  year : ℤ
  day : ℤ
  century_bounds : 0 ≤ century ∧ century ≤ 3
  quad_bounds : 0 ≤ quad ∧ quad ≤ 24
  year_bounds : 0 ≤ year ∧ year ≤ 3
  day_bounds : 0 ≤ day ∧ day ≤ 365
  leap : day = 365 → year = 3 ∧ (quad = 24 → century = 3)
  sum : days + 719468 = 146097 * era + (36524 * century + 1461 * quad + 365 * year + day)

theorem exists_dayParts (days : ℤ) : Nonempty (DayParts days) := by
  obtain ⟨z, hz⟩ : ∃ z, z = days + 719468 := ⟨_, rfl⟩
  obtain ⟨e, he⟩ : ∃ e, e = z - 146097 * (z / 146097) := ⟨_, rfl⟩
  have hlow : 0 ≤ e := by omega
  have hhigh : e < 146097 := by omega
  obtain ⟨c, hc⟩ : ∃ c, c = min (e / 36524) 3 := ⟨_, rfl⟩
  obtain ⟨q, hq⟩ : ∃ q, q = (e - 36524 * c) / 1461 := ⟨_, rfl⟩
  obtain ⟨r, hr⟩ : ∃ r, r = min ((e - 36524 * c - 1461 * q) / 365) 3 := ⟨_, rfl⟩
  refine ⟨⟨z / 146097, c, q, r, e - 36524 * c - 1461 * q - 365 * r, ?_, ?_, ?_, ?_, ?_, ?_⟩⟩ <;> omega

variable {days : ℤ} (p : DayParts days)

namespace DayParts

def dayOfEra : ℤ := 36524 * p.century + 1461 * p.quad + 365 * p.year + p.day

def yearOfEra : ℤ := 100 * p.century + 4 * p.quad + p.year

theorem dayOfEra_bounds : 0 ≤ p.dayOfEra ∧ p.dayOfEra < 146097 := by
  obtain ⟨era, c, q, r, d, hc, hq, hr, hd, hleap, -⟩ := p
  simp only [dayOfEra]
  omega

theorem era_eq : (days + 719468).fdiv 146097 = p.era := by
  have := p.dayOfEra_bounds
  have hsum := p.sum
  rw [Int.fdiv_eq_ediv_of_nonneg _ (by decide)]
  unfold dayOfEra at this
  omega

/-- The days that the centuries and the fours of years have too little or too much make up for at
most the rest of the year. -/
theorem yearOfEra_eq : (p.dayOfEra - p.dayOfEra / 1460 + p.dayOfEra / 36524 -
    p.dayOfEra / 146096) / 365 = p.yearOfEra := by
  obtain ⟨era, c, q, r, d, hc, hq, hr, hd, hleap, -⟩ := p
  simp only [dayOfEra, yearOfEra]
  obtain ⟨e, he⟩ : ∃ e, e = 36524 * c + 1461 * q + 365 * r + d := ⟨_, rfl⟩
  rw [← he]
  have hcentury : e / 36524 - e / 146096 = c := by
    obtain rfl | rfl | rfl | rfl : c = 0 ∨ c = 1 ∨ c = 2 ∨ c = 3 := by omega
    all_goals omega
  obtain ⟨t, ht⟩ : ∃ t, t = (24 * c + q + 365 * r + d) / 1460 := ⟨_, rfl⟩
  have hquads : e / 1460 = 25 * c + q + t := by omega
  have hyears : 365 * (100 * c + 4 * q + r) ≤ e - (25 * c + q + t) + c ∧
      e - (25 * c + q + t) + c < 365 * (100 * c + 4 * q + r) + 365 := by
    obtain rfl | rfl : t = 0 ∨ t = 1 := by omega
    all_goals omega
  rw [add_sub_assoc, hcentury, hquads]
  clear ht hquads hcentury
  omega

theorem dayOfYear_eq :
    p.dayOfEra - (365 * p.yearOfEra + p.yearOfEra / 4 - p.yearOfEra / 100) = p.day := by
  obtain ⟨era, c, q, r, d, hc, hq, hr, hd, hleap, -⟩ := p
  simp only [dayOfEra, yearOfEra]
  omega

theorem yearOfEra_bounds : 0 ≤ p.yearOfEra ∧ p.yearOfEra < 400 := by
  obtain ⟨era, c, q, r, d, hc, hq, hr, hd, hleap, -⟩ := p
  simp only [yearOfEra]
  omega

/-- The year that began in March. -/
def marchYear : ℤ := p.yearOfEra + p.era * 400

def month : ℤ := (5 * p.day + 2) / 153

theorem month_bounds : 0 ≤ p.month ∧ p.month ≤ 11 := by
  have := p.day_bounds
  unfold month
  omega

/-- The date in the calendar from the year that begins in March. -/
theorem dateOfDays_eq : dateOfDays days =
    (if p.month < 10 then p.marchYear else p.marchYear + 1,
      (if p.month < 10 then p.month + 3 else p.month - 9).toNat,
      (p.day - (153 * p.month + 2) / 5 + 1).toNat) := by
  have hday : days + 719468 - p.era * 146097 = p.dayOfEra := by
    have := p.sum
    unfold dayOfEra
    omega
  have hmonth := p.month_bounds
  unfold dateOfDays
  dsimp only
  rw [p.era_eq, hday, p.yearOfEra_eq, p.dayOfYear_eq, ← month, ← marchYear]
  by_cases hearly : p.month < 10
  · rw [if_pos hearly, if_pos hearly, if_neg (by omega)]
  · rw [if_neg hearly, if_neg hearly, if_pos (by omega)]

end DayParts

theorem isLeapYear_marchYear : p.day = 365 → isLeapYear (p.marchYear + 1) = true := by
  obtain ⟨era, c, q, r, d, hc, hq, hr, hd, hleap, -⟩ := p
  intro h
  obtain ⟨rfl, hcentury⟩ := hleap h
  simp only [isLeapYear, DayParts.marchYear, DayParts.yearOfEra, Bool.and_eq_true, Bool.or_eq_true,
    beq_iff_eq, bne_iff_ne]
  omega

/-- The date of a day is one of the calendar, leap years included. -/
theorem isDate_dateOfDays (days : ℤ) :
    IsDate (dateOfDays days).1 (dateOfDays days).2.1 (dateOfDays days).2.2 := by
  obtain ⟨p⟩ := exists_dayParts days
  have hday := p.day_bounds
  have hleap := isLeapYear_marchYear p
  have hmonth : p.month = (5 * p.day + 2) / 153 := rfl
  rw [p.dateOfDays_eq]
  dsimp only
  generalize p.marchYear = y at *
  generalize p.month = month at *
  generalize p.day = day at *
  -- The last month, February, is the only one that the year decides about.
  obtain hlow | rfl | rfl : (0 ≤ month ∧ month < 10) ∨ month = 10 ∨ month = 11 := by omega
  · rw [if_pos hlow.2, if_pos hlow.2]
    obtain ⟨hnonneg, hlt⟩ := hlow
    interval_cases month
    all_goals
      refine ⟨by simp, by simp, by omega, ?_⟩
      simp only [monthLength, Int.reduceAdd, Int.reduceToNat]
      omega
  · rw [if_neg (by decide), if_neg (by decide)]
    refine ⟨by simp, by simp, by omega, ?_⟩
    simp only [monthLength, Int.reduceSub, Int.reduceToNat]
    omega
  · rw [if_neg (by decide), if_neg (by decide)]
    refine ⟨by simp, by simp, by omega, ?_⟩
    simp only [monthLength, Int.reduceSub, Int.reduceToNat]
    split_ifs with hyear
    · omega
    · have : day ≠ 365 := fun h => hyear (hleap h)
      omega

/-- The date of a day leads back to that day. -/
theorem daysOfDate_dateOfDays (days : ℤ) :
    daysOfDate (dateOfDays days).1 (dateOfDays days).2.1 (dateOfDays days).2.2 = days := by
  obtain ⟨p⟩ := exists_dayParts days
  have hmonth := p.month_bounds
  have hday := p.day_bounds
  have hmonthDay : p.month = (5 * p.day + 2) / 153 := rfl
  have hdayOfYear := p.dayOfYear_eq
  have hsum : days + 719468 = 146097 * p.era + p.dayOfEra := p.sum
  have hera : p.marchYear.fdiv 400 = p.era := by
    have := p.yearOfEra_bounds
    rw [Int.fdiv_eq_ediv_of_nonneg _ (by decide), DayParts.marchYear]
    omega
  have hyear : p.marchYear - p.era * 400 = p.yearOfEra := by
    unfold DayParts.marchYear
    omega
  have hnat : ((p.day - (153 * p.month + 2) / 5 + 1).toNat : ℤ) =
      p.day - (153 * p.month + 2) / 5 + 1 := Int.toNat_of_nonneg (by omega)
  rw [p.dateOfDays_eq]
  unfold daysOfDate
  dsimp only
  rw [hnat]
  by_cases hearly : p.month < 10
  · rw [if_pos hearly, if_pos hearly, if_neg (by omega), hera, hyear, Int.toNat_of_nonneg (by omega),
      show (p.month + 3 + 9) % 12 = p.month by omega]
    omega
  · rw [if_neg hearly, if_neg hearly, if_pos (by omega), Int.add_sub_cancel, hera, hyear,
      Int.toNat_of_nonneg (by omega), show (p.month - 9 + 9) % 12 = p.month by omega]
    omega

end Calendar

section Digits

theorem natOf_eq (ds : List Char) : natOf ds = Nat.ofDigitChars 10 ds 0 := by
  have hfold : ∀ (ds : List Char) (n : ℕ),
      ds.foldl (fun n c => n * 10 + (c.toNat - '0'.toNat)) n = Nat.ofDigitChars 10 ds n := by
    intro ds
    induction ds with
    | nil => exact fun n => Nat.ofDigitChars_nil.symm
    | cons c ds ih =>
      intro n
      rw [List.foldl_cons, ih, Nat.ofDigitChars_cons, Nat.mul_comm]
  exact hfold ds 0

variable (width n : ℕ)

theorem toList_padded : (padded width n).toList =
    List.replicate (width - (Nat.toDigits 10 n).length) '0' ++ Nat.toDigits 10 n :=
  String.toList_ofList

theorem allDigits_padded : AllDigits (padded width n).toList := by
  rw [toList_padded]
  exact (AllDigits.replicate_zero _).append (AllDigits.toDigits n)

theorem natOf_padded : natOf (padded width n).toList = n := by
  rw [natOf_eq, toList_padded, Nat.ofDigitChars_append, Nat.ofDigitChars_replicate_zero, Nat.mul_zero,
    Nat.ofDigitChars_ten_toDigits]

theorem padded_ne_nil : (padded width n).toList ≠ [] := by
  rw [toList_padded]
  exact List.append_ne_nil_of_right_ne_nil _ Nat.toDigits_ne_nil

variable {width n}

theorem length_padded (hwidth : 0 < width) (hn : n < 10 ^ width) :
    (padded width n).toList.length = width := by
  have hlength := (Nat.length_toDigits_le_iff (by decide) hwidth).mpr hn
  rw [toList_padded, List.length_append, List.length_replicate]
  omega

variable {rest : List Char}

theorem isBlank_digit {c : Char} (hc : c.isDigit = true) : Text.isBlank c = false := by
  obtain ⟨hlow, hhigh⟩ : 48 ≤ c.toNat ∧ c.toNat ≤ 57 := Char.isDigit_iff_toNat.mp hc
  simp only [Text.isBlank, Bool.or_eq_false_iff, Bool.and_eq_false_iff, decide_eq_false_iff_not]
  omega

theorem trimStart_padded :
    Text.trimStart ((padded width n).toList ++ rest) = (padded width n).toList ++ rest := by
  have hdigits := allDigits_padded width n
  obtain ⟨c, cs, hcs⟩ := List.exists_cons_of_ne_nil (padded_ne_nil width n)
  rw [hcs] at hdigits ⊢
  refine List.dropWhile_cons_of_neg ?_
  rw [isBlank_digit (hdigits c (by simp))]
  exact Bool.false_ne_true

theorem number?_padded (hwidth : 0 < width) (hn : n < 10 ^ width) :
    number? width ((padded width n).toList ++ rest) = some (n, rest) := by
  have htake : (((padded width n).toList ++ rest).takeWhile Char.isDigit).take width =
      (padded width n).toList := by
    rw [List.takeWhile_append_of_pos (allDigits_padded width n),
      List.take_left' (length_padded hwidth hn)]
  unfold number?
  dsimp only
  rw [trimStart_padded, htake, natOf_padded, List.drop_left, if_neg]
  rw [List.isEmpty_iff]
  exact padded_ne_nil width n

theorem takeWhile_padded (hrest : ∀ c, rest.head? = some c → c.isDigit = false) :
    ((padded width n).toList ++ rest).takeWhile Char.isDigit = (padded width n).toList :=
  takeWhile_run (allDigits_padded width n) hrest

end Digits

/-- The time has a date that can be written, and a nanosecond within its second; a leap second
follows the last second of a minute. -/
structure Valid (t : Timestamp) : Prop where
  year_ge : -262143 ≤ (dateOfDays (t.seconds.fdiv 86400)).1
  year_le : (dateOfDays (t.seconds.fdiv 86400)).1 ≤ 262142
  nanos : t.nanos < 1000000000 ∨ t.nanos < 2000000000 ∧ t.seconds % 60 = 59

theorem year?_minus (cs : List Char) : year? ('-' :: cs) = year?.signed (-1) cs := rfl

theorem year?_plus (cs : List Char) : year? ('+' :: cs) = year?.signed 1 cs := rfl

/-- A year is read back with its sign, and with as many digits as it has. -/
theorem year?_yearText (y : ℤ) (hrest : ∀ c, rest.head? = some c → c.isDigit = false) :
    year? ((yearText y).toList ++ rest) = some (y, rest) := by
  have hsigned : ∀ sign : ℤ, year?.signed sign ((padded 4 y.natAbs).toList ++ rest) =
      some (sign * y.natAbs, rest) := by
    intro sign
    unfold year?.signed
    dsimp only
    rw [takeWhile_padded hrest, natOf_padded, List.drop_left, if_neg]
    rw [List.isEmpty_iff]
    exact padded_ne_nil 4 y.natAbs
  unfold yearText
  by_cases hplain : 0 ≤ y ∧ y ≤ 9999
  · have hread := @number?_padded 4 y.toNat rest (by decide) (by omega)
    have hdigits := allDigits_padded 4 y.toNat
    rw [if_pos hplain]
    unfold year?
    rw [trimStart_padded]
    obtain ⟨c, cs, hcs⟩ := List.exists_cons_of_ne_nil (padded_ne_nil 4 y.toNat)
    rw [hcs, List.cons_append] at hread ⊢
    rw [hcs] at hdigits
    have hc := hdigits c (by simp)
    split
    · rename_i heq
      cases heq
      cases hc
    · rename_i heq
      cases heq
      cases hc
    · rw [hread, Option.map_some, Int.toNat_of_nonneg hplain.1]
  · rw [if_neg hplain]
    by_cases hneg : y < 0
    · rw [if_pos hneg, String.toList_append, List.append_assoc, show "-".toList = ['-'] from rfl,
        List.singleton_append, year?_minus, hsigned, show -1 * (y.natAbs : ℤ) = y by omega]
    · rw [if_neg hneg, String.toList_append, List.append_assoc, show "+".toList = ['+'] from rfl,
        List.singleton_append, year?_plus, hsigned, show 1 * (y.natAbs : ℤ) = y by omega]

/-- Digits after the point count as if zeros followed up to the ninth. -/
theorem fraction?_padded {width n : ℕ} (hwidth : 0 < width) (hnine : width ≤ 9)
    (hn : n < 10 ^ width) :
    fraction? ('.' :: ((padded width n).toList ++ ['Z'])) =
      some (n * 10 ^ (9 - width), ['Z']) := by
  have htake : ((padded width n).toList ++ ['Z']).takeWhile Char.isDigit =
      (padded width n).toList := takeWhile_padded fun c hc => by
    cases hc
    rfl
  have hlength := length_padded hwidth hn
  rw [fraction?, htake, if_neg]
  · dsimp only
    rw [List.take_of_length_le (by omega), natOf_padded, List.drop_left, hlength]
    rfl
  · rw [List.isEmpty_iff]
    exact padded_ne_nil width n

/-- The fraction of a second is read back, whether it is left out or has three, six or nine
digits. -/
theorem fraction?_fractionText {nanos : ℕ} (h : nanos < 1000000000) :
    fraction? ((fractionText nanos).toList ++ ['Z']) = some (nanos, ['Z']) := by
  unfold fractionText
  split_ifs with hzero hmillis hmicros
  · rw [hzero]
    rfl
  · rw [String.toList_append]
    refine (fraction?_padded (by decide) (by decide) (by omega)).trans ?_
    rw [show nanos / 1000000 * 10 ^ (9 - 3) = nanos by omega]
  · rw [String.toList_append]
    refine (fraction?_padded (by decide) (by decide) (by omega)).trans ?_
    rw [show nanos / 1000 * 10 ^ (9 - 6) = nanos by omega]
  · rw [String.toList_append]
    refine (fraction?_padded (by decide) (by decide) (by omega)).trans ?_
    rw [show nanos * 10 ^ (9 - 9) = nanos by omega]

theorem mark?_self {c : Char} (hc : Text.isBlank c = false) : mark? c (c :: rest) = some rest := by
  have htrim : Text.trimStart (c :: rest) = c :: rest := by
    refine List.dropWhile_cons_of_neg ?_
    rw [hc]
    exact Bool.false_ne_true
  unfold mark?
  rw [htrim]
  exact if_pos rfl

/-- The text of a date, a time of the day and a fraction of its second. -/
def written (y : ℤ) (m d hour minute second nanos : ℕ) : List Char :=
  (yearText y).toList ++ '-' :: ((padded 2 m).toList ++ '-' :: ((padded 2 d).toList ++ 'T' ::
    ((padded 2 hour).toList ++ ':' :: ((padded 2 minute).toList ++ ':' ::
      ((padded 2 second).toList ++ ((fractionText nanos).toList ++ ['Z']))))))

theorem monthLength_le (y : ℤ) (m : ℕ) : monthLength y m ≤ 31 := by
  unfold monthLength
  split
  · split_ifs <;> decide
  all_goals decide

/-- The text of a date and a time of day. The sixtieth second of a minute is a leap second, which is
kept as a second and more nanoseconds. -/
theorem parse?_written {y : ℤ} {m d hour minute second nanos : ℕ} (hdate : IsDate y m d)
    (hlow : -262143 ≤ y) (hhigh : y ≤ 262142) (hhour : hour < 24) (hminute : minute < 60)
    (hsecond : second ≤ 60) (hnanos : nanos < 1000000000) {s : String}
    (hs : s.toList = written y m d hour minute second nanos) :
    parse? s = some ⟨daysOfDate y m d * 86400 +
      (hour * 3600 + minute * 60 + (second - if second = 60 then 1 else 0) : ℕ),
      nanos + (if second = 60 then 1 else 0) * 1000000000⟩ := by
  have hlength := monthLength_le y m
  have hday := hdate.day_le
  have hmonth := hdate.month_le
  unfold parse?
  rw [hs, written, year?_yearText y (by rintro _ ⟨⟩; rfl)]
  dsimp only [Option.bind_eq_bind, Option.bind_some]
  rw [mark?_self (by decide), Option.bind_some, number?_padded (by decide) (by omega)]
  dsimp only [Option.bind_some]
  rw [mark?_self (by decide), Option.bind_some, number?_padded (by decide) (by omega)]
  dsimp only [Option.bind_some]
  rw [if_pos (by rfl), number?_padded (by decide) (by omega)]
  dsimp only [Option.bind_some]
  rw [mark?_self (by decide), Option.bind_some, number?_padded (by decide) (by omega)]
  dsimp only [Option.bind_some]
  rw [mark?_self (by decide), Option.bind_some, number?_padded (by decide) (by omega)]
  dsimp only [Option.bind_some]
  rw [fraction?_fractionText hnanos, Option.bind_some,
    show offset? (Text.trimStart ['Z']) = some (0, []) from rfl]
  dsimp only [Option.bind_some]
  rw [if_pos, Int.sub_zero]
  simp only [Bool.and_eq_true, decide_eq_true_eq]
  exact ⟨⟨⟨⟨⟨⟨⟨⟨⟨⟨hlow, hhigh⟩, hdate.month_pos⟩, hdate.month_le⟩, hdate.day_pos⟩, hdate.day_le⟩,
    hhour⟩, hminute⟩, hsecond⟩, by decide⟩, rfl⟩

/-- The text of a point in time is that of its date and its time of day. -/
theorem toList_text (t : Timestamp) : t.text.toList =
    written (dateOfDays (t.seconds.fdiv 86400)).1 (dateOfDays (t.seconds.fdiv 86400)).2.1
      (dateOfDays (t.seconds.fdiv 86400)).2.2
      ((t.seconds - t.seconds.fdiv 86400 * 86400).toNat / 3600)
      ((t.seconds - t.seconds.fdiv 86400 * 86400).toNat / 60 % 60)
      ((t.seconds - t.seconds.fdiv 86400 * 86400).toNat % 60 +
        if 1000000000 ≤ t.nanos then 1 else 0)
      (t.nanos - (if 1000000000 ≤ t.nanos then 1 else 0) * 1000000000) := by
  have hdash : "-".toList = ['-'] := rfl
  have hcolon : ":".toList = [':'] := rfl
  have ht : "T".toList = ['T'] := rfl
  have hz : "Z".toList = ['Z'] := rfl
  unfold text written
  simp only [String.toList_append, List.append_assoc, hdash, hcolon, ht, hz, List.singleton_append]
  rfl

/-- A point in time is read from its text. -/
theorem parse?_text {t : Timestamp} (h : t.Valid) : parse? t.text = some t := by
  have hdays : t.seconds.fdiv 86400 = t.seconds / 86400 :=
    Int.fdiv_eq_ediv_of_nonneg _ (by decide)
  have hdate := isDate_dateOfDays (t.seconds.fdiv 86400)
  have hback := daysOfDate_dateOfDays (t.seconds.fdiv 86400)
  have hnanos := h.nanos
  obtain ⟨ofDay, hofDay⟩ : ∃ n, n = (t.seconds - t.seconds.fdiv 86400 * 86400).toNat := ⟨_, rfl⟩
  have hseconds : t.seconds.fdiv 86400 * 86400 + ofDay = t.seconds := by omega
  have hlt : ofDay < 86400 := by omega
  have htext := toList_text t
  rw [← hofDay] at htext
  have hsecond : ofDay / 3600 * 3600 + ofDay / 60 % 60 * 60 + ofDay % 60 = ofDay := by omega
  by_cases hleap : 1000000000 ≤ t.nanos
  · have hlast : ofDay % 60 = 59 := by omega
    rw [if_pos hleap, hlast] at htext
    rw [parse?_written hdate h.year_ge h.year_le (by omega) (by omega) (by decide) (by omega) htext,
      hback, if_pos rfl, show 59 + 1 - 1 = ofDay % 60 from hlast.symm, hsecond, hseconds,
      Nat.one_mul, Nat.sub_add_cancel hleap]
  · have hshort : ¬ ofDay % 60 + 0 = 60 := by omega
    rw [if_neg hleap] at htext
    rw [parse?_written hdate h.year_ge h.year_le (by omega) (by omega) (by omega) (by omega) htext,
      hback, if_neg hshort, Nat.add_zero, Nat.sub_zero, hsecond, hseconds, Nat.zero_mul, Nat.sub_zero,
      Nat.add_zero]

end Reconciliation.Timestamp
