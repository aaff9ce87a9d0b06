import Mathlib.Data.Nat.Digits.Defs
import SchemaMigration.Proofs.ModifierChain
import SchemaMigration.Proofs.NumeralText

namespace SchemaMigration

def decimalValue (ds : List Char) : ℕ :=
  Nat.ofDigits 10 (ds.reverse.map fun c => c.toNat - '0'.toNat)

/-- The text is an integer in decimal digits, with or without a sign before them, and with any
blanks before and after it. -/
def WritesInteger (cs : List Char) (n : ℤ) : Prop :=
  ∃ (before : List Char) (sign : Sign) (digits after : List Char),
    cs = before ++ (sign.text ++ digits ++ after) ∧ (∀ c ∈ before, isBlank c = true) ∧
      (∀ c ∈ after, isBlank c = true) ∧ digits ≠ [] ∧ (∀ c ∈ digits, c.isDigit = true) ∧
      n = sign.factor * decimalValue digits

theorem ofDigitChars_eq_decimalValue (ds : List Char) :
    Nat.ofDigitChars 10 ds 0 = decimalValue ds := by
  induction ds using List.reverseRecOn with
  | nil => rfl
  | append_singleton ds c ih =>
    rw [Nat.ofDigitChars_append, Nat.ofDigitChars_cons, Nat.ofDigitChars_nil, ih, decimalValue,
      decimalValue, List.reverse_append, List.reverse_singleton, List.singleton_append,
      List.map_cons, Nat.ofDigits_cons]
    omega

/-- A text is what is left of it between blanks at its two ends. -/
theorem exists_blanks_trim (cs : List Char) :
    ∃ before after, cs = before ++ (trim cs ++ after) ∧ (∀ c ∈ before, isBlank c = true) ∧
      ∀ c ∈ after, isBlank c = true := by
  let rest := cs.dropWhile isBlank
  refine ⟨cs.takeWhile isBlank, (rest.reverse.takeWhile isBlank).reverse, ?_,
    fun c hc => List.mem_takeWhile_imp hc,
    fun c hc => List.mem_takeWhile_imp (List.mem_reverse.mp hc)⟩
  have hrest : trim cs ++ (rest.reverse.takeWhile isBlank).reverse = rest := by
    rw [trim, ← List.reverse_append, List.takeWhile_append_dropWhile, List.reverse_reverse]
  rw [hrest, List.takeWhile_append_dropWhile]

theorem not_isBlank_of_mem_integer (sign : Sign) {digits : List Char}
    (h : ∀ c ∈ digits, c.isDigit = true) : ∀ c ∈ sign.text ++ digits, isBlank c = false := by
  rw [List.forall_mem_append]
  refine ⟨?_, fun c hc => not_isBlank_of_isDigit (h c hc)⟩
  have hplus : isBlank '+' = false := by decide
  have hminus : isBlank '-' = false := by decide
  cases sign <;> simp [Sign.text, hplus, hminus]

/-- An integer is read from a text if, up to blanks around it, the text writes it. -/
theorem readInt?_trim_eq_some_iff {cs : List Char} {k : ℤ} :
    readInt? (trim cs) = some k ↔ WritesInteger cs k := by
  simp only [readInt?_eq_some_iff_digits, ofDigitChars_eq_decimalValue]
  constructor
  · rintro ⟨sign, digits, hne, hdigits, htext, rfl⟩
    obtain ⟨before, after, hsplit, hbefore, hafter⟩ := exists_blanks_trim cs
    exact ⟨before, sign, digits, after, htext ▸ hsplit, hbefore, hafter, hne, hdigits, rfl⟩
  · rintro ⟨before, sign, digits, after, rfl, hbefore, hafter, hne, hdigits, rfl⟩
    refine ⟨sign, digits, hne, hdigits, ?_, rfl⟩
    rw [trim_append_append hbefore (not_isBlank_of_mem_integer sign hdigits) hafter]

theorem toInt64?_eq_none_iff {n : ℤ} : toInt64? n = none ↔ n < -2 ^ 63 ∨ 2 ^ 63 ≤ n := by
  rw [toInt64?, Int64.toInt_minValue, Int64.toInt_maxValue, ite_eq_right_iff]
  simp only [reduceCtorEq, imp_false]
  omega

namespace WritesInteger

variable {cs : List Char} {n : ℤ}

theorem exists_isDigit (h : WritesInteger cs n) : ∃ c ∈ cs, c.isDigit = true := by
  obtain ⟨before, sign, digits, after, rfl, -, -, hne, hdigits, -⟩ := h
  obtain ⟨c, hc⟩ := List.exists_mem_of_ne_nil digits hne
  exact ⟨c, by simp [hc], hdigits c hc⟩

/-- A text that writes an integer has blanks, digits and signs in it, and nothing else. -/
theorem of_mem (h : WritesInteger cs n) {c : Char} (hc : c ∈ cs) :
    isBlank c = true ∨ c.isDigit = true ∨ c = '+' ∨ c = '-' := by
  obtain ⟨before, sign, digits, after, rfl, hbefore, hafter, -, hdigits, -⟩ := h
  simp only [List.mem_append] at hc
  rcases hc with hc | (hc | hc) | hc
  · exact Or.inl (hbefore c hc)
  · cases sign <;> simp_all [Sign.text]
  · exact Or.inr (Or.inl (hdigits c hc))
  · exact Or.inl (hafter c hc)

/-- No blank of the text stands between two other characters. -/
theorem blank_at_end (h : WritesInteger cs n) {before after : List Char} {c : Char}
    (hsplit : cs = before ++ c :: after) (hc : isBlank c = true) :
    (∀ x ∈ before, isBlank x = true) ∨ ∀ x ∈ after, isBlank x = true := by
  obtain ⟨blanks, sign, digits, blanks', rfl, hblanks, hblanks', -, hdigits, -⟩ := h
  have hinteger := not_isBlank_of_mem_integer sign hdigits
  rcases List.append_eq_append_iff.mp hsplit with ⟨front, -, hrest⟩ | ⟨rest, hfront, -⟩
  · rcases List.append_eq_append_iff.mp hrest with ⟨back, -, hback⟩ | ⟨back, hback, hafter⟩
    · refine Or.inr fun x hx => hblanks' x ?_
      simp [hback, hx]
    · -- The blank is none of the characters of the integer, so it stands behind them.
      cases back with
      | nil =>
        refine Or.inr fun x hx => hblanks' x ?_
        rw [← List.nil_append blanks', ← hafter]
        exact List.mem_cons_of_mem c hx
      | cons x back =>
        cases hafter
        have hcontrary : isBlank c = false := hinteger c (by simp [hback])
        rw [hc] at hcontrary
        cases hcontrary
  · refine Or.inl fun x hx => hblanks x ?_
    simp [hfront, hx]

end WritesInteger

namespace Table

/-- A table has the start value that its option writes. -/
theorem startValue?_eq_some_iff {t : Table} {n : Int64} :
    t.startValue? = some n ↔ WritesInteger t.autoIncrementOption.toList n.toInt := by
  simp only [startValue?, readInt64?, Option.bind_eq_some_iff, readInt?_trim_eq_some_iff,
    toInt64?_eq_some_iff]
  constructor
  · rintro ⟨k, hk, rfl⟩
    exact hk
  · intro h
    exact ⟨n.toInt, h, rfl⟩

theorem startValue?_of_writesInteger {t : Table} {n : ℤ}
    (h : WritesInteger t.autoIncrementOption.toList n) : t.startValue? = toInt64? n := by
  rw [startValue?, readInt64?, readInt?_trim_eq_some_iff.mpr h, Option.bind_some]

/-- No text of the option sets a first value other than a 64-bit integer in decimal digits, with or
without a sign and with any blanks around it; such a text sets exactly this integer. So there is
none without a digit, with a blank inside, with another character, or out of range. An incrementing
column is chained the call with the first value if there is one, and the call is written with that
number and with nothing else. -/
theorem startValue_written (t : Table) :
    let cs := t.autoIncrementOption.toList
    (∀ n : Int64, t.startValue? = some n ↔ WritesInteger cs n.toInt) ∧
      (∀ n : ℤ, WritesInteger cs n → (t.startValue? = none ↔ n < -2 ^ 63 ∨ 2 ^ 63 ≤ n)) ∧
      ((∀ c ∈ cs, c.isDigit = false) → t.startValue? = none) ∧
      (∀ c ∈ cs, isBlank c = false → c.isDigit = false → c ≠ '+' → c ≠ '-' →
        t.startValue? = none) ∧
      (∀ before c after, cs = before ++ c :: after → isBlank c = true →
        (∃ x ∈ before, isBlank x = false) → (∃ x ∈ after, isBlank x = false) →
          t.startValue? = none) ∧
      (∀ c d, t.columnDefinition c = .ok d → ∀ args, (.startingAt, args) ∈ d.modifiers ↔
        c.autoIncrement = true ∧ ∃ n : Int64, WritesInteger cs n.toInt ∧ args = [.int n]) ∧
      ∀ (n : Int64) (depth w : Nat),
        ColumnDefinition.modifierSource depth w (.startingAt, [.int n]) =
          Script.lineStart (depth * w) ++ "->from(" ++ toString n.toInt ++ ")" := by
  -- A text that writes no integer sets no first value, whatever else is in it.
  have hnone (h : ∀ n : ℤ, ¬WritesInteger t.autoIncrementOption.toList n) :
      t.startValue? = none := by
    rw [Option.eq_none_iff_forall_ne_some]
    intro n hn
    exact h n.toInt (startValue?_eq_some_iff.mp hn)
  refine ⟨fun n => startValue?_eq_some_iff, ?_, ?_, ?_, ?_, ?_, ?_⟩
  · intro n hn
    rw [startValue?_of_writesInteger hn, toInt64?_eq_none_iff]
  · intro hdigit
    refine hnone fun n hn => ?_
    obtain ⟨c, hc, hcdigit⟩ := hn.exists_isDigit
    rw [hdigit c hc] at hcdigit
    cases hcdigit
  · intro c hc hblank hdigit hplus hminus
    refine hnone fun n hn => ?_
    have hother := hn.of_mem hc
    simp [hblank, hdigit, hplus, hminus] at hother
  · rintro before c after hsplit hc ⟨x, hx, hxblank⟩ ⟨y, hy, hyblank⟩
    refine hnone fun n hn => ?_
    rcases hn.blank_at_end hsplit hc with h | h
    · rw [h x hx] at hxblank
      cases hxblank
    · rw [h y hy] at hyblank
      cases hyblank
  · intro c d hd args
    rw [mem_modifiers_iff_of_ne hd (by rintro (_ | _ | _ | _ | _) <;> decide), Chains]
    simp only [startValue?_eq_some_iff]
  · intro n depth w
    simp only [ColumnDefinition.modifierSource, Modifier.method, Script.callText, List.map_cons,
      List.map_nil, Literal.source, int64Text, String.intercalate_singleton, String.append_assoc]
    rfl

end Table

end SchemaMigration
