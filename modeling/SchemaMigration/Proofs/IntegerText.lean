import Mathlib.Data.List.TakeWhile
import SchemaMigration.Numeral.Decimal
import SchemaMigration.Text.Blank

namespace SchemaMigration

/-- A numeral is a run of digits, after a minus if the integer is negative. -/
theorem toList_int64Text (n : Int64) :
    (int64Text n).toList =
      if n.toInt < 0 then '-' :: Nat.toDigits 10 n.toInt.natAbs
      else Nat.toDigits 10 n.toInt.natAbs := by
  rw [int64Text, Int.toString_eq_repr, Int.repr_eq_if]
  by_cases h : n.toInt < 0
  · have hneg : ¬0 ≤ n.toInt := by omega
    have habs : (-n.toInt).toNat = n.toInt.natAbs := by omega
    rw [if_neg hneg, if_pos h, String.toList_append, Nat.toList_repr, habs]
    rfl
  · have hpos : 0 ≤ n.toInt := by omega
    have habs : n.toInt.toNat = n.toInt.natAbs := by omega
    rw [if_pos hpos, if_neg h, Nat.toList_repr, habs]

theorem isDigit_of_mem_toDigits {n : Nat} {c : Char} (h : c ∈ Nat.toDigits 10 n) :
    c.isDigit = true :=
  Nat.isDigit_of_mem_toDigits (by decide) (by decide) h

/-- The decimal digits of a number are read back as it. -/
theorem readNat?_toDigits (n : Nat) : readNat? (Nat.toDigits 10 n) = some n := by
  have hall : (Nat.toDigits 10 n).all Char.isDigit = true :=
    List.all_eq_true.mpr fun c hc => isDigit_of_mem_toDigits hc
  unfold readNat?
  rw [if_pos ⟨Nat.toDigits_ne_nil, hall⟩, Nat.ofDigitChars_ten_toDigits]

theorem takeSign_eq_self {cs : List Char} (h : ∀ c ∈ cs.head?, c ≠ '-' ∧ c ≠ '+') :
    takeSign cs = (false, cs) := by
  unfold takeSign
  split
  · exact absurd rfl (h '-' rfl).1
  · exact absurd rfl (h '+' rfl).2
  · rfl

theorem takeSign_of_isDigit {cs : List Char} (h : ∀ c ∈ cs, c.isDigit = true) :
    takeSign cs = (false, cs) := by
  apply takeSign_eq_self
  intro c hc
  have hdigit : c.isDigit = true := h c (List.mem_of_mem_head? hc)
  constructor <;> rintro rfl <;> revert hdigit <;> decide

theorem readInt?_eq (cs : List Char) :
    readInt? cs = (readNat? (takeSign cs).2).map fun n : Nat =>
      if (takeSign cs).1 = true then -(n : Int) else n := by
  unfold readInt?
  obtain ⟨negative, digits⟩ := takeSign cs
  dsimp only
  cases readNat? digits <;> rfl

/-- The numeral of an integer is read as the integer. -/
theorem readInt64?_int64Text (n : Int64) : readInt64? (int64Text n).toList = some n := by
  have hint : readInt? (int64Text n).toList = some n.toInt := by
    rw [readInt?_eq, toList_int64Text]
    split
    case isTrue h =>
      have hneg : -(n.toInt.natAbs : Int) = n.toInt := by omega
      rw [takeSign, readNat?_toDigits, Option.map_some, if_pos rfl, hneg]
    case isFalse h =>
      have hpos : (n.toInt.natAbs : Int) = n.toInt := by omega
      rw [takeSign_of_isDigit fun c hc => isDigit_of_mem_toDigits hc, readNat?_toDigits,
        Option.map_some, if_neg Bool.false_ne_true, hpos]
  rw [readInt64?, hint, Option.bind_some, toInt64?_eq_some_iff]

theorem not_isBlank_of_isDigit {c : Char} (h : c.isDigit = true) : isBlank c = false := by
  have hrange : 48 ≤ c.toNat ∧ c.toNat ≤ 57 := by
    simp only [Char.isDigit, Bool.and_eq_true, decide_eq_true_eq] at h
    exact ⟨UInt32.le_iff_toNat_le.mp h.1, UInt32.le_iff_toNat_le.mp h.2⟩
  simp [isBlank, blankRanges]
  omega

theorem dropWhile_blanks {blanks cs : List Char} (hblanks : ∀ c ∈ blanks, isBlank c = true)
    (hcs : ∀ c ∈ cs, isBlank c = false) : (blanks ++ cs).dropWhile isBlank = cs := by
  rw [List.dropWhile_append_of_pos hblanks]
  cases cs with
  | nil => rfl
  | cons c cs => exact List.dropWhile_cons_of_neg (by simp [hcs c List.mem_cons_self])

/-- The text between the blanks at the two ends is kept, if there is no blank in it. -/
theorem trim_append_append {before cs after : List Char} (hbefore : ∀ c ∈ before, isBlank c = true)
    (hcs : ∀ c ∈ cs, isBlank c = false) (hafter : ∀ c ∈ after, isBlank c = true) :
    trim (before ++ (cs ++ after)) = cs := by
  have hreverse : ((cs ++ after).reverse.dropWhile isBlank).reverse = cs := by
    rw [List.reverse_append, dropWhile_blanks (by simpa using hafter) (by simpa using hcs),
      List.reverse_reverse]
  rw [trim, List.dropWhile_append_of_pos hbefore]
  cases cs with
  | nil =>
    rw [List.nil_append, List.dropWhile_eq_nil_iff.mpr hafter]
    rfl
  | cons c cs =>
    rw [List.cons_append, List.dropWhile_cons_of_neg (by simp [hcs c List.mem_cons_self])]
    exact hreverse

theorem trim_eq_self {cs : List Char} (h : ∀ c ∈ cs, isBlank c = false) : trim cs = cs := by
  have htrim := trim_append_append (List.forall_mem_nil _) h (List.forall_mem_nil _)
  rwa [List.nil_append, List.append_nil] at htrim

theorem trim_int64Text (n : Int64) : trim (int64Text n).toList = (int64Text n).toList := by
  apply trim_eq_self
  intro c hc
  rw [toList_int64Text] at hc
  split at hc
  · rcases List.mem_cons.mp hc with rfl | hc
    · decide
    · exact not_isBlank_of_isDigit (isDigit_of_mem_toDigits hc)
  · exact not_isBlank_of_isDigit (isDigit_of_mem_toDigits hc)

/-- The text of an integer of 64 bits is read back as the integer. -/
theorem readWhole?_int64Text (n : Int64) :
    readWhole? (trim (int64Text n).toList) = some n := by
  rw [trim_int64Text, readWhole?, readInt64?_int64Text, Option.some_or]

end SchemaMigration
