import Mathlib.Algebra.Field.Rat
import Mathlib.Data.Int.Cast.Lemmas
import Mathlib.Data.List.Induction
import Mathlib.Data.List.TakeWhile
import SchemaMigration.Proofs.IntegerText

namespace SchemaMigration

inductive Sign where
  | absent
  | plus
  | minus
  deriving DecidableEq

namespace Sign

def text : Sign → List Char
  | absent => []
  | plus => ['+']
  | minus => ['-']

def factor : Sign → ℤ
  | minus => -1
  | _ => 1

end Sign

theorem takeSign_text (s : Sign) {cs : List Char} (h : takeSign cs = (false, cs)) :
    takeSign (s.text ++ cs) = (decide (s = .minus), cs) := by
  cases s with
  | absent => exact h
  | plus => rfl
  | minus => rfl

theorem exists_sign (cs : List Char) :
    ∃ s : Sign, s.text ++ (takeSign cs).2 = cs ∧ (takeSign cs).1 = decide (s = .minus) := by
  unfold takeSign
  split
  · exact ⟨.minus, rfl, rfl⟩
  · exact ⟨.plus, rfl, rfl⟩
  · exact ⟨.absent, rfl, rfl⟩

theorem ite_minus (s : Sign) (n : ℤ) :
    (if decide (s = .minus) = true then -n else n) = s.factor * n := by
  cases s <;> simp [Sign.factor]

structure Exponent where
  mark : Char
  sign : Sign
  digits : List Char
  mark_eq : mark = 'e' ∨ mark = 'E'
  digits_ne_nil : digits ≠ []
  isDigit : ∀ c ∈ digits, c.isDigit = true

namespace Exponent

def text (e : Exponent) : List Char :=
  e.mark :: (e.sign.text ++ e.digits)

def size (e : Exponent) : ℕ :=
  Nat.ofDigitChars 10 e.digits 0

/-- The magnitude as it is counted, digit by digit, until it has reached 65536. -/
def counted (e : Exponent) : ℕ :=
  Decimal.exponentValue e.digits

end Exponent

/-- A decimal numeral: a sign, digits with a point among or beside them, and an exponent. Sign,
point and exponent may be left out. -/
structure Numeral where
  sign : Sign
  whole : List Char
  fraction? : Option (List Char)
  exponent? : Option Exponent
  digits_ne_nil : whole ++ fraction?.getD [] ≠ []
  isDigit : ∀ c ∈ whole ++ fraction?.getD [], c.isDigit = true

namespace Numeral

def fractionText : Option (List Char) → List Char
  | some digits => '.' :: digits
  | none => []

def exponentText : Option Exponent → List Char
  | some e => e.text
  | none => []

def text (x : Numeral) : List Char :=
  x.sign.text ++ (x.whole ++ (fractionText x.fraction? ++ exponentText x.exponent?))

def digits (x : Numeral) : List Char :=
  x.whole ++ x.fraction?.getD []

def lastPlace (x : Numeral) (size : Exponent → ℕ) : ℤ :=
  (x.exponent?.map fun e => e.sign.factor * (size e : ℤ)).getD 0 - (x.fraction?.getD []).length

def valueBy (x : Numeral) (size : Exponent → ℕ) : ℚ :=
  x.sign.factor * Nat.ofDigitChars 10 x.digits 0 * 10 ^ x.lastPlace size

def value (x : Numeral) : ℚ :=
  x.valueBy Exponent.size

def countedValue (x : Numeral) : ℚ :=
  x.valueBy Exponent.counted

def decimal (x : Numeral) : Decimal where
  negative := decide (x.sign = .minus)
  digits := Nat.ofDigitChars 10 x.digits 0
  exponent := x.lastPlace Exponent.counted

def Plain (x : Numeral) : Prop :=
  x.fraction? = none ∧ x.exponent? = none

end Numeral

section Reading

def StopsDigits (rest : List Char) : Prop :=
  ∀ c ∈ rest.head?, c.isDigit = false

variable {ds rest : List Char}

theorem takeWhile_digits (hds : ∀ c ∈ ds, c.isDigit = true) (hrest : StopsDigits rest) :
    (ds ++ rest).takeWhile Char.isDigit = ds := by
  rw [List.takeWhile_append_of_pos hds]
  cases rest with
  | nil => simp
  | cons c cs => rw [List.takeWhile_cons_of_neg (by simp [hrest c rfl]), List.append_nil]

theorem dropWhile_digits (hds : ∀ c ∈ ds, c.isDigit = true) (hrest : StopsDigits rest) :
    (ds ++ rest).dropWhile Char.isDigit = rest := by
  rw [List.dropWhile_append_of_pos hds]
  cases rest with
  | nil => rfl
  | cons c cs => exact List.dropWhile_cons_of_neg (by simp [hrest c rfl])

theorem Exponent.mark_not_isDigit (e : Exponent) : e.mark.isDigit = false := by
  rcases e.mark_eq with h | h <;> rw [h] <;> decide

theorem stopsDigits_exponentText (e? : Option Exponent) :
    StopsDigits (Numeral.exponentText e?) := by
  cases e? with
  | none => simp [StopsDigits, Numeral.exponentText]
  | some e => simp [StopsDigits, Numeral.exponentText, Exponent.text, e.mark_not_isDigit]

theorem stopsDigits_fractionText (ds? : Option (List Char)) (e? : Option Exponent) :
    StopsDigits (Numeral.fractionText ds? ++ Numeral.exponentText e?) := by
  cases ds? with
  | none => exact stopsDigits_exponentText e?
  | some ds => simp [StopsDigits, Numeral.fractionText]

/-- Behind its sign a numeral starts with a digit or with its point. -/
theorem Numeral.no_second_sign (x : Numeral) :
    ∀ c ∈ (x.whole ++ (fractionText x.fraction? ++ exponentText x.exponent?)).head?,
      c ≠ '-' ∧ c ≠ '+' := by
  intro c hc
  cases hwhole : x.whole with
  | cons d ds =>
    rw [hwhole] at hc
    cases hc
    have hd : c.isDigit = true := x.isDigit c (by simp [hwhole])
    constructor <;> rintro rfl <;> revert hd <;> decide
  | nil =>
    cases hfraction : x.fraction? with
    | some ds =>
      rw [hwhole, hfraction] at hc
      cases hc
      decide
    | none => exact absurd (by simp [hwhole, hfraction]) x.digits_ne_nil

end Reading

namespace Decimal

/-- An exponent is read if the text is one, or is empty. -/
theorem readExponent?_eq_some_iff {cs : List Char} {k : ℤ} :
    readExponent? cs = some k ↔
      ∃ e? : Option Exponent, Numeral.exponentText e? = cs ∧
        (e?.map fun e => e.sign.factor * (e.counted : ℤ)).getD 0 = k := by
  constructor
  · intro h
    cases cs with
    | nil =>
      cases h
      exact ⟨none, rfl, rfl⟩
    | cons c cs =>
      obtain ⟨s, hs, hnegative⟩ := exists_sign cs
      simp only [readExponent?] at h
      split at h
      case isTrue hdigits =>
        obtain ⟨hmark, hne, hall⟩ := hdigits
        refine ⟨some ⟨c, s, _, hmark, hne, List.all_eq_true.mp hall⟩, ?_, ?_⟩
        · rw [Numeral.exponentText, Exponent.text, hs]
        · rw [hnegative] at h
          rw [Option.map_some, Option.getD_some, Exponent.counted, ← ite_minus]
          exact Option.some.inj h
      case isFalse => cases h
  · rintro ⟨e?, rfl, rfl⟩
    cases e? with
    | none => rfl
    | some e =>
      have hsign := takeSign_text e.sign (takeSign_of_isDigit e.isDigit)
      simp only [Numeral.exponentText, Exponent.text, readExponent?, hsign]
      rw [if_pos ⟨e.mark_eq, e.digits_ne_nil, List.all_eq_true.mpr e.isDigit⟩, ite_minus]
      rfl

/-- A fraction is taken off as far as its digits go. -/
theorem takeFraction_text (ds? : Option (List Char)) (e? : Option Exponent)
    (hds : ∀ c ∈ ds?.getD [], c.isDigit = true) :
    takeFraction (Numeral.fractionText ds? ++ Numeral.exponentText e?) =
      (ds?.getD [], Numeral.exponentText e?) := by
  cases ds? with
  | none =>
    rw [Numeral.fractionText, List.nil_append, takeFraction]
    · rfl
    · intro cs hcs
      cases e? with
      | none => cases hcs
      | some e =>
        -- The text of an exponent begins with its mark, which is no point.
        have hmark : e.mark = '.' := (List.cons.inj hcs).1
        rcases e.mark_eq with h | h <;> rw [h] at hmark <;> revert hmark <;> decide
  | some ds =>
    have hstop := stopsDigits_exponentText e?
    rw [Option.getD_some] at hds
    rw [Numeral.fractionText, List.cons_append, takeFraction, takeWhile_digits hds hstop,
      dropWhile_digits hds hstop]
    rfl

theorem exists_fraction (cs : List Char) :
    ∃ ds? : Option (List Char), Numeral.fractionText ds? ++ (takeFraction cs).2 = cs ∧
      ds?.getD [] = (takeFraction cs).1 ∧ ∀ c ∈ ds?.getD [], c.isDigit = true := by
  unfold takeFraction
  split
  case h_1 cs =>
    refine ⟨some (cs.takeWhile Char.isDigit), ?_, rfl, fun c hc => List.mem_takeWhile_imp hc⟩
    rw [Numeral.fractionText, List.cons_append, List.takeWhile_append_dropWhile]
  case h_2 cs => exact ⟨none, rfl, rfl, by simp⟩

/-- What is read are the texts of numerals, and of a numeral its parts are kept. -/
theorem read?_eq_some_iff {cs : List Char} {d : Decimal} :
    read? cs = some d ↔ ∃ x : Numeral, x.text = cs ∧ x.decimal = d := by
  constructor
  · intro h
    obtain ⟨s, hs, hnegative⟩ := exists_sign cs
    -- Sign, digits, fraction and exponent are cut off in turn; together they are the text again.
    let ds := (takeSign cs).2
    let whole := ds.takeWhile Char.isDigit
    obtain ⟨ds?, htext, hfraction, hdigits⟩ := exists_fraction (ds.dropWhile Char.isDigit)
    simp only [read?] at h
    split at h
    case isTrue => cases h
    case isFalse hne =>
      obtain ⟨k, hk, rfl⟩ := Option.map_eq_some_iff.mp h
      obtain ⟨e?, he, rfl⟩ := readExponent?_eq_some_iff.mp hk
      have hwhole : ∀ c ∈ whole ++ ds?.getD [], c.isDigit = true := by
        intro c hc
        rcases List.mem_append.mp hc with hc | hc
        · exact List.mem_takeWhile_imp hc
        · exact hdigits c hc
      rw [← hfraction] at hne
      refine ⟨⟨s, whole, ds?, e?, hne, hwhole⟩, ?_, ?_⟩
      · rw [Numeral.text, he, htext, List.takeWhile_append_dropWhile, hs]
      · rw [← hfraction, hnegative]
        rfl
  · rintro ⟨x, rfl, rfl⟩
    have hwhole : ∀ c ∈ x.whole, c.isDigit = true := fun c hc => x.isDigit c (by simp [hc])
    have hfraction : ∀ c ∈ x.fraction?.getD [], c.isDigit = true :=
      fun c hc => x.isDigit c (by simp [hc])
    -- No part goes on into the next one, so each cut falls where the part ends.
    have hstop := stopsDigits_fractionText x.fraction? x.exponent?
    have hunsigned := takeSign_eq_self x.no_second_sign
    have hexponent := readExponent?_eq_some_iff.mpr ⟨x.exponent?, rfl, rfl⟩
    simp only [read?, Numeral.text, takeSign_text x.sign hunsigned, takeWhile_digits hwhole hstop,
      dropWhile_digits hwhole hstop, takeFraction_text _ _ hfraction, if_neg x.digits_ne_nil,
      hexponent]
    rfl

def value (d : Decimal) : ℚ :=
  (if d.negative then -1 else 1) * d.digits * 10 ^ d.exponent

/-- An exponent is counted to its end if that is at its last digit at the earliest. -/
theorem exponentValue_eq {ds : List Char} (h : Nat.ofDigitChars 10 ds 0 < 655360) :
    exponentValue ds = Nat.ofDigitChars 10 ds 0 := by
  induction ds using List.reverseRecOn with
  | nil => rfl
  | append_singleton ds c ih =>
    have hlast : Nat.ofDigitChars 10 (ds ++ [c]) 0 =
        10 * Nat.ofDigitChars 10 ds 0 + (c.toNat - '0'.toNat) := by
      rw [Nat.ofDigitChars_append, Nat.ofDigitChars_cons, Nat.ofDigitChars_nil]
    rw [hlast] at h
    have hcounted : exponentValue ds = Nat.ofDigitChars 10 ds 0 := ih (by omega)
    have hbelow : exponentValue ds < 0x10000 := by omega
    rw [hlast, ← hcounted]
    simp only [exponentValue, List.foldl_append, List.foldl_cons, List.foldl_nil]
    exact if_pos hbelow

end Decimal

namespace Numeral

variable {x y : Numeral}

/-- The decimal that is read has the value that the numeral counts. -/
theorem value_decimal (x : Numeral) : x.decimal.value = x.countedValue := by
  cases hsign : x.sign <;>
    simp [Decimal.value, decimal, countedValue, valueBy, Sign.factor, hsign]

/-- Exponents below 655360 are counted exactly. -/
theorem countedValue_eq_value (h : ∀ e ∈ x.exponent?, e.size < 655360) :
    x.countedValue = x.value := by
  have hplace : x.lastPlace Exponent.counted = x.lastPlace Exponent.size := by
    unfold lastPlace
    cases he : x.exponent? with
    | none => rfl
    | some e =>
      have hsize : e.counted = e.size := Decimal.exponentValue_eq (h e he)
      rw [Option.map_some, Option.map_some, hsize]
  rw [countedValue, value, valueBy, valueBy, hplace]

theorem value_eq_of_decimal (h : ∀ e ∈ x.exponent?, e.size < 655360) {d : Decimal}
    (hd : x.decimal = d) : x.value = d.value := by
  rw [← countedValue_eq_value h, ← value_decimal, hd]

theorem countedValue_eq_of_text_eq (h : x.text = y.text) : x.countedValue = y.countedValue := by
  have hx : Decimal.read? x.text = some x.decimal := Decimal.read?_eq_some_iff.mpr ⟨x, rfl, rfl⟩
  have hy : Decimal.read? x.text = some y.decimal := Decimal.read?_eq_some_iff.mpr ⟨y, h.symm, rfl⟩
  rw [← value_decimal, ← value_decimal, Option.some.inj (hx.symm.trans hy)]

theorem Plain.text_eq (h : x.Plain) : x.text = x.sign.text ++ x.whole := by
  rw [text, h.1, h.2, fractionText, exponentText, List.append_nil, List.append_nil]

theorem Plain.value_eq (h : x.Plain) :
    x.value = ((x.sign.factor * (Nat.ofDigitChars 10 x.whole 0 : ℕ) : ℤ) : ℚ) := by
  rw [value, valueBy, lastPlace, digits, h.1, h.2]
  simp

theorem Plain.countedValue_eq (h : x.Plain) : x.countedValue = x.value := by
  apply countedValue_eq_value
  simp [h.2]

/-- The mark of an exponent shows in the text. -/
theorem exponent?_eq_none (h : ∀ c, c = 'e' ∨ c = 'E' → c ∉ x.text) : x.exponent? = none := by
  cases hexponent : x.exponent? with
  | none => rfl
  | some e =>
    have hmark : e.mark ∈ x.text := by simp [text, hexponent, exponentText, Exponent.text]
    exact absurd hmark (h e.mark e.mark_eq)

/-- So does the point. -/
theorem fraction?_eq_none (h : '.' ∉ x.text) : x.fraction? = none := by
  cases hfraction : x.fraction? with
  | none => rfl
  | some ds => exact absurd (by simp [text, hfraction, fractionText]) h

/-- Whether a numeral is a run of digits can be told from its text. -/
theorem Plain.of_text_eq (hy : y.Plain) (h : x.text = y.text) : x.Plain := by
  have hchar : ∀ c ∈ x.text, c = '+' ∨ c = '-' ∨ c.isDigit = true := by
    intro c hc
    rw [h, hy.text_eq] at hc
    rcases List.mem_append.mp hc with hc | hc
    · cases hsign : y.sign <;> simp_all [Sign.text]
    · exact .inr (.inr (y.isDigit c (by simp [hc])))
  constructor
  · exact fraction?_eq_none fun hpoint => absurd (hchar '.' hpoint) (by decide)
  · apply exponent?_eq_none
    rintro c (rfl | rfl) hmark <;> exact absurd (hchar _ hmark) (by decide)

/-- Texts with the same characters denote the same number, if one of them is plain. -/
theorem Plain.value_eq_of_text_eq (hy : y.Plain) (h : x.text = y.text) : x.value = y.value := by
  rw [← (hy.of_text_eq h).countedValue_eq, ← hy.countedValue_eq, countedValue_eq_of_text_eq h]

end Numeral

/-- A text is read as an integer if it is a run of digits behind an optional sign. -/
theorem readInt?_eq_some_iff_digits {cs : List Char} {k : ℤ} :
    readInt? cs = some k ↔
      ∃ (s : Sign) (ds : List Char), ds ≠ [] ∧ (∀ c ∈ ds, c.isDigit = true) ∧ s.text ++ ds = cs ∧
        s.factor * (Nat.ofDigitChars 10 ds 0 : ℕ) = k := by
  constructor
  · intro h
    obtain ⟨s, hs, hnegative⟩ := exists_sign cs
    rw [readInt?_eq, Option.map_eq_some_iff] at h
    obtain ⟨n, hn, rfl⟩ := h
    rw [readNat?, Option.ite_none_right_eq_some] at hn
    obtain ⟨⟨hne, hall⟩, hn⟩ := hn
    refine ⟨s, (takeSign cs).2, hne, List.all_eq_true.mp hall, hs, ?_⟩
    rw [← Option.some.inj hn, hnegative, ite_minus]
  · rintro ⟨s, ds, hne, hds, rfl, rfl⟩
    rw [readInt?_eq, takeSign_text s (takeSign_of_isDigit hds), readNat?,
      if_pos ⟨hne, List.all_eq_true.mpr hds⟩, Option.map_some, ite_minus]

/-- Such a text is the one of a plain numeral. -/
theorem readInt?_eq_some_iff {cs : List Char} {k : ℤ} :
    readInt? cs = some k ↔ ∃ x : Numeral, x.Plain ∧ x.text = cs ∧ x.value = k := by
  rw [readInt?_eq_some_iff_digits]
  constructor
  · rintro ⟨s, ds, hne, hds, rfl, rfl⟩
    let x : Numeral := ⟨s, ds, none, none, by simpa using hne, by simpa using hds⟩
    have hx : x.Plain := ⟨rfl, rfl⟩
    exact ⟨x, hx, hx.text_eq, hx.value_eq⟩
  · rintro ⟨x, hx, rfl, hvalue⟩
    refine ⟨x.sign, x.whole, ?_, fun c hc => x.isDigit c (by simp [hc]), hx.text_eq.symm, ?_⟩
    · simpa [hx.1] using x.digits_ne_nil
    · exact Int.cast_injective (α := ℚ) (hx.value_eq.symm.trans hvalue)

end SchemaMigration
