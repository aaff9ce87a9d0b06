import SchemaMigration.Proofs.MemberShape
import SchemaMigration.Proofs.NumeralText
import SchemaMigration.Proofs.Rounding

namespace SchemaMigration

namespace Decimal

/-- The fraction that is rounded is the magnitude of the numeral. -/
theorem div_eq_magnitude (d : Decimal) :
    ((d.digits * Nat.pow 10 d.exponent.toNat : ℕ) : ℚ) / (Nat.pow 10 (-d.exponent).toNat : ℕ) =
      d.digits * 10 ^ d.exponent := by
  simp only [Nat.pow_eq]
  obtain ⟨n, hn | hn⟩ := d.exponent.eq_nat_or_neg
  · rw [hn, Int.toNat_natCast, Int.toNat_neg_natCast]
    simp
  · rw [hn, neg_neg, Int.toNat_natCast, Int.toNat_neg_natCast, zpow_neg, zpow_natCast,
      ← div_eq_mul_inv]
    simp

theorem toInt64?_eq (d : Decimal) :
    d.toInt64? = (d.toBinary64?.bind Binary64.toNat?).map fun n : ℕ =>
      Int64.ofIntClamp (if d.negative then -(n : ℤ) else n) := by
  rw [toInt64?]
  cases d.toBinary64?.bind Binary64.toNat? <;> rfl

theorem natAbs_toInt_lt (n : Int64) : (n.toInt.natAbs : ℚ) < 2 ^ 1024 := by
  have hlow := n.le_toInt
  have hhigh := n.toInt_lt
  have hle : n.toInt.natAbs ≤ 2 ^ 63 := by omega
  calc (n.toInt.natAbs : ℚ) ≤ 2 ^ 63 := by exact_mod_cast hle
    _ < 2 ^ 1024 := pow_lt_pow_right₀ one_lt_two (by norm_num)

/-- The integer of a numeral is what it rounds to, if that is an integer of 64 bits, and it has none
if it rounds to no integer at all. -/
theorem exists_roundsTo (d : Decimal) :
    ∃ y, RoundsTo d.value y ∧ ((∀ k : ℤ, y ≠ k) → d.toInt64? = none) ∧
      ∀ n : Int64, y = n.toInt → d.toInt64? = some n := by
  have hden : 0 < Nat.pow 10 (-d.exponent).toNat := Nat.pow_pos (by norm_num)
  obtain ⟨y, hy, hnonneg, hread⟩ :=
    Binary64.exists_roundsTo (d.digits * Nat.pow 10 d.exponent.toNat) hden
  rw [div_eq_magnitude] at hy
  -- Only the magnitude is rounded; the sign goes over to what it is rounded to.
  let signed (k : ℤ) : ℤ := if d.negative then -k else k
  let z : ℚ := if d.negative then -y else y
  have hz : RoundsTo d.value z := by
    unfold z value
    split
    · simpa using hy.neg
    · simpa using hy
  have hsigned (k : ℤ) : z = signed k ↔ y = k := by
    unfold z signed
    split
    · push_cast
      exact neg_inj
    · exact Iff.rfl
  refine ⟨z, hz, fun hint => ?_, fun n hn => ?_⟩
  · rw [toInt64?_eq, Option.map_eq_none_iff, toBinary64?, Option.eq_none_iff_forall_ne_some]
    intro k hk
    exact hint (signed k) ((hsigned k).mpr ((hread k).mp hk).1)
  · have hy : y = n.toInt.natAbs := by
      have habs : |z| = y := by
        unfold z
        split
        · rw [abs_neg, abs_of_nonneg hnonneg]
        · rw [abs_of_nonneg hnonneg]
      rw [← habs, hn, Nat.cast_natAbs, Int.cast_abs]
    have hbound : y < 2 ^ 1024 := hy ▸ natAbs_toInt_lt n
    have hk : signed n.toInt.natAbs = n.toInt := by
      have hz := (hsigned n.toInt.natAbs).mpr (by rw [hy]; rfl)
      exact Int.cast_injective (α := ℚ) (hz.symm.trans hn)
    rw [toInt64?_eq, toBinary64?, (hread n.toInt.natAbs).mpr ⟨hy, hbound⟩, Option.map_some]
    change some (Int64.ofIntClamp (signed n.toInt.natAbs)) = some n
    rw [hk, Int64.ofIntClamp_toInt]

end Decimal

section ReadWhole

variable {x : Numeral} {cs : List Char}

/-- A run of digits that is an integer of 64 bits is read as it. -/
theorem readWhole?_of_plain (hx : x.Plain) {n : Int64} (hvalue : x.value = n.toInt) :
    readWhole? x.text = some n := by
  have hint : readInt? x.text = some n.toInt := readInt?_eq_some_iff.mpr ⟨x, hx, rfl, hvalue⟩
  rw [readWhole?, readInt64?, hint, Option.bind_some, toInt64?_eq_some_iff.mpr rfl, Option.some_or]

theorem readWhole?_eq_none (h : ∀ x : Numeral, x.text ≠ cs) : readWhole? cs = none := by
  have hint : readInt? cs = none := by
    rw [Option.eq_none_iff_forall_ne_some]
    intro k hk
    obtain ⟨x, _, hx, _⟩ := readInt?_eq_some_iff.mp hk
    exact h x hx
  have hdecimal : Decimal.read? cs = none := by
    rw [Option.eq_none_iff_forall_ne_some]
    intro d hd
    obtain ⟨x, hx, _⟩ := Decimal.read?_eq_some_iff.mp hd
    exact h x hx
  rw [readWhole?, readInt64?, hint, hdecimal]
  rfl

/-- A numeral that is no integer of 64 bits in plain digits is read as a real. -/
theorem readWhole?_of_not_plain (h : x.Plain → ∀ n : Int64, x.value ≠ n.toInt) :
    readWhole? x.text = x.decimal.toInt64? := by
  have hint : readInt64? x.text = none := by
    rw [Option.eq_none_iff_forall_ne_some]
    intro n hn
    obtain ⟨k, hk, hkn⟩ := Option.bind_eq_some_iff.mp hn
    obtain ⟨y, hy, htext, hvalue⟩ := readInt?_eq_some_iff.mp hk
    apply h (hy.of_text_eq htext.symm) n
    rw [hy.value_eq_of_text_eq htext.symm, hvalue, toInt64?_eq_some_iff.mp hkn]
  rw [readWhole?, hint, Decimal.read?_eq_some_iff.mpr ⟨x, rfl, rfl⟩]
  rfl

end ReadWhole

inductive SizeField where
  | length
  | precision
  | scale

namespace SizeField

def key : SizeField → String
  | length => "length"
  | precision => "precision"
  | scale => "scale"

def put : SizeField → Column → Int64 → Column
  | length, c, n => { c with length := n }
  | precision, c, n => { c with precision := n }
  | scale, c, n => { c with scale := n }

end SizeField

/-- A member of the object of a column turns a column into another one: it is read, without a
sighting, and assigned. -/
def Element.Turns (m : Element) (c c' : Column) : Prop :=
  ∃ members, decodeMembers Column.record.keys [m] = .ok (members, []) ∧
    members.foldl (Field.assignTo Column.record.fields) c = c'

/-- A member with a scalar text is read as a value with this text, and nothing is seen. -/
theorem Element.decode_of_scalarText? {m : Element} {s : String} (h : m.scalarText? = some s) :
    ∃ d : Datum, m.decode = .ok (some d, []) ∧ d.text? = some s := by
  rw [scalarText?, Option.ite_none_right_eq_some] at h
  obtain ⟨hfits | hfits, hs⟩ := h
  · exact ⟨.text m.content, by rw [decode_eq, form_eq_ok_of_fits hfits]; rfl, hs⟩
  · exact ⟨.link m.content, by rw [decode_eq, form_eq_ok_of_fits hfits]; rfl, hs⟩

namespace SizeField

def Assigns (f : SizeField) (s : String) (n : Int64) : Prop :=
  ∀ (m : Element) (c : Column), m.attr? "key" = some f.key → m.scalarText? = some s →
    m.Turns c (f.put c n)

def Leaves (f : SizeField) (s : String) : Prop :=
  ∀ (m : Element) (c : Column), m.attr? "key" = some f.key → m.scalarText? = some s → m.Turns c c

theorem key_mem_keys (f : SizeField) : f.key ∈ Column.record.keys := by
  cases f <;> decide

/-- Of a member with the key of the field, only an integer is assigned. -/
theorem assignTo_key (f : SizeField) (c : Column) (d : Datum) :
    Field.assignTo Column.record.fields c (f.key, d) = (d.integer?.map (f.put c)).getD c := by
  cases f <;> rfl

/-- What a member does to the field is told by the integer in its text. -/
theorem turns {f : SizeField} {m : Element} {s : String} (hkey : m.attr? "key" = some f.key)
    (htext : m.scalarText? = some s) (c : Column) :
    m.Turns c (((readWhole? (trim s.toList)).map (f.put c)).getD c) := by
  obtain ⟨d, hdecode, hd⟩ := Element.decode_of_scalarText? htext
  refine ⟨[(f.key, d)], ?_, ?_⟩
  · rw [Element.decodeMembers, Element.attr_eq_ok_iff.mpr hkey]
    change (if f.key ∈ Column.record.keys then _ else _) = _
    rw [if_pos f.key_mem_keys, hdecode]
    rfl
  · rw [List.foldl_cons, List.foldl_nil, assignTo_key, Datum.integer?, hd, Option.bind_some]

variable {f : SizeField} {s : String}

/-- A text from which an integer is read assigns it. -/
theorem assigns_of_readWhole? {n : Int64} (h : readWhole? (trim s.toList) = some n) :
    f.Assigns s n := by
  intro m c hkey htext
  have hturns := turns hkey htext c
  rwa [h] at hturns

theorem leaves_of_readWhole? (h : readWhole? (trim s.toList) = none) : f.Leaves s := by
  intro m c hkey htext
  have hturns := turns hkey htext c
  rwa [h] at hturns

theorem assigns_of_plain {x : Numeral} (hx : x.text = trim s.toList) (hplain : x.Plain) {n : Int64}
    (hvalue : x.value = n.toInt) : f.Assigns s n :=
  assigns_of_readWhole? (hx ▸ readWhole?_of_plain hplain hvalue)

/-- A numeral that is read as a real assigns what it rounds to, if that is an integer. -/
theorem of_roundsTo {x : Numeral} (hx : x.text = trim s.toList)
    (hnot : x.Plain → ∀ n : Int64, x.value ≠ n.toInt) {y : ℚ} (hy : RoundsTo x.countedValue y) :
    ((∀ k : ℤ, y ≠ k) → f.Leaves s) ∧ ∀ n : Int64, y = n.toInt → f.Assigns s n := by
  obtain ⟨z, hround, hnone, hsome⟩ := x.decimal.exists_roundsTo
  rw [x.value_decimal] at hround
  obtain rfl := hround.unique hy
  have hread := readWhole?_of_not_plain hnot
  rw [hx] at hread
  exact ⟨fun hint => leaves_of_readWhole? (hread.trans (hnone hint)),
    fun n hn => assigns_of_readWhole? (hread.trans (hsome n hn))⟩

/-- Integers of 53 bits are not changed by rounding. -/
theorem assigns_of_value {x : Numeral} (hx : x.text = trim s.toList)
    (hsize : ∀ e ∈ x.exponent?, e.size < 655360) {n : Int64} (hn : |n.toInt| ≤ 2 ^ 53)
    (hvalue : x.value = n.toInt) : f.Assigns s n := by
  by_cases hplain : x.Plain
  · exact assigns_of_plain hx hplain hvalue
  · have hround : RoundsTo x.countedValue n.toInt := by
      rw [Numeral.countedValue_eq_value hsize, hvalue]
      exact .self (representable_intCast hn)
    exact (of_roundsTo hx (fun h => absurd h hplain) hround).2 n rfl

/-- A member that is built from an integer assigns it again. -/
theorem turns_int (f : SizeField) (n : Int64) (c : Column) :
    ((Element.int n).setKey f.key).Turns c (f.put c n) := by
  have hkey : ((Element.int n).setKey f.key).attr? "key" = some f.key :=
    Element.attr_eq_ok_iff.mp (Element.attr_key_setKey _ _)
  have hdecode : ((Element.int n).setKey f.key).decode = .ok (some (.text (int64Text n)), []) :=
    (Element.decode_setKey _ _).trans (Element.decode_int n)
  have htext : ((Element.int n).setKey f.key).scalarText? = some (int64Text n) :=
    (Element.text?_of_decode hdecode).symm
  exact assigns_of_readWhole? (readWhole?_int64Text n) _ c hkey htext

/-- What a text under the key of an integer field does. Without a numeral in it, it changes nothing.
A run of digits whose integer has 64 bits assigns that integer, so a member that is built from an
integer assigns it again. Any other numeral is read as a real: if that is no integer, nothing
changes, and if it is an integer of 64 bits, this is assigned; what a real outside the range of 64
bits does is left open. The real is the one number to which that of the numeral rounds, its exponent
being counted exactly below 655360, so that integers of 53 bits are exact. -/
theorem assigns_rounded (f : SizeField) (s : String) :
    ((∀ x : Numeral, x.text ≠ trim s.toList) → f.Leaves s) ∧
      (∀ x : Numeral, x.text = trim s.toList → ∀ n : Int64, x.Plain → x.value = n.toInt →
        f.Assigns s n) ∧
      (∀ x : Numeral, x.text = trim s.toList → (x.Plain → ∀ n : Int64, x.value ≠ n.toInt) →
        ∃ y, RoundsTo x.countedValue y ∧ (∀ z, RoundsTo x.countedValue z → z = y) ∧
          ((∀ k : ℤ, y ≠ k) → f.Leaves s) ∧ ∀ n : Int64, y = n.toInt → f.Assigns s n) ∧
      (∀ x : Numeral, x.text = trim s.toList → (∀ e ∈ x.exponent?, e.size < 655360) →
        x.countedValue = x.value ∧
          ∀ n : Int64, |n.toInt| ≤ 2 ^ 53 → x.value = n.toInt → f.Assigns s n) ∧
      ∀ (n : Int64) (c : Column), ((Element.int n).setKey f.key).Turns c (f.put c n) := by
  refine ⟨fun h => leaves_of_readWhole? (readWhole?_eq_none h),
    fun x hx n hplain hvalue => assigns_of_plain hx hplain hvalue,
    fun x hx hnot => ?_,
    fun x hx hsize => ⟨Numeral.countedValue_eq_value hsize,
      fun n hn hvalue => assigns_of_value hx hsize hn hvalue⟩, turns_int f⟩
  obtain ⟨y, hround, -⟩ := x.decimal.exists_roundsTo
  rw [x.value_decimal] at hround
  exact ⟨y, hround, fun z hz => hz.unique hround, of_roundsTo hx hnot hround⟩

/-- Blanks and leading zeros have no part in the integer; a fraction and a word change nothing. -/
theorem assigns_rounded_smallTexts :
    length.Assigns " -007" (-7) ∧ precision.Assigns "1.0e+1 " 10 ∧ scale.Leaves "2.5" ∧
      scale.Leaves "ten" := by
  obtain ⟨hnone, -⟩ := assigns_rounded scale "ten"
  obtain ⟨-, hplain, -⟩ := assigns_rounded length " -007"
  obtain ⟨-, -, hreal, -⟩ := assigns_rounded scale "2.5"
  obtain ⟨-, -, -, hexact, -⟩ := assigns_rounded precision "1.0e+1 "
  refine ⟨?_, ?_, ?_, hnone fun x hx => ?_⟩
  · let x : Numeral := ⟨.minus, "007".toList, none, none, by decide, by simp⟩
    have hvalue : x.value = Decimal.value ⟨true, 7, 0⟩ :=
      x.value_eq_of_decimal (by simp [x]) (by decide)
    refine hplain x (by decide) (-7) ⟨rfl, rfl⟩ ?_
    rw [hvalue]
    simp [Decimal.value]
  · let e : Exponent := ⟨'e', .plus, ['1'], by decide, by decide, by simp⟩
    let x : Numeral := ⟨.absent, ['1'], some ['0'], some e, by decide, by simp⟩
    have hsize : ∀ e ∈ x.exponent?, e.size < 655360 := by
      rintro e ⟨rfl⟩
      decide
    have hvalue : x.value = Decimal.value ⟨false, 10, 0⟩ := x.value_eq_of_decimal hsize (by decide)
    refine (hexact x (by decide) hsize).2 10 (by decide) ?_
    rw [hvalue]
    simp [Decimal.value]
  · let x : Numeral := ⟨.absent, ['2'], some ['5'], none, by decide, by simp⟩
    have hpoint : ¬x.Plain := fun hx => by cases hx.1
    obtain ⟨y, hround, -, hleaves, -⟩ := hreal x (by decide) fun hx => absurd hx hpoint
    have hvalue : x.countedValue = 5 / 2 := by
      have hdecimal : x.decimal = ⟨false, 25, -1⟩ := by decide
      rw [← x.value_decimal, hdecimal, Decimal.value]
      norm_num
    -- Five halves can be represented, so the numeral rounds to them.
    have hy : y = 5 / 2 := by
      rw [hvalue] at hround
      exact hround.unique (.self ⟨5, -1, by norm_num, by norm_num, by norm_num⟩)
    refine hleaves fun k hk => ?_
    rw [hy, div_eq_iff two_ne_zero] at hk
    have hk : 5 = k * 2 := by exact_mod_cast hk
    omega
  · have hread : Decimal.read? (trim "ten".toList) = some x.decimal :=
      Decimal.read?_eq_some_iff.mpr ⟨x, hx, rfl⟩
    have hnot : Decimal.read? (trim "ten".toList) = none := by decide
    rw [hnot] at hread
    cases hread

/-- Numbers of this size have no place for the half, so the real of this text is an integer. -/
theorem assigns_of_fraction :
    length.Assigns "9007199254740992.5" 9007199254740992 ∧
      ∀ x : Numeral, x.text = trim "9007199254740992.5".toList →
        x.value = 18014398509481985 / 2 := by
  refine ⟨assigns_of_readWhole? (by decide), fun x hx => ?_⟩
  have hread : Decimal.read? x.text = some ⟨false, 90071992547409925, -1⟩ := by
    rw [hx]
    decide
  have hdecimal : x.decimal = ⟨false, 90071992547409925, -1⟩ :=
    Option.some.inj ((Decimal.read?_eq_some_iff.mpr ⟨x, rfl, rfl⟩).symm.trans hread)
  have hexponent : x.exponent? = none := by
    apply Numeral.exponent?_eq_none
    rw [hx]
    rintro c (rfl | rfl) <;> decide
  rw [x.value_eq_of_decimal (by simp [hexponent]) hdecimal, Decimal.value]
  norm_num

end SizeField

end SchemaMigration
