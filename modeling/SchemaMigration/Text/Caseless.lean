namespace SchemaMigration

def equalsIgnoringCase (s t : String) : Bool :=
  s.toList.map Char.toLower == t.toList.map Char.toLower

/-- Two characters are equal, or one is a capital letter of ASCII and the other its small one. -/
def SameLetter (c d : Char) : Prop :=
  c = d ∨ (c.isUpper = true ∧ d.toNat = c.toNat + 32) ∨ (d.isUpper = true ∧ c.toNat = d.toNat + 32)

theorem isUpper_iff {c : Char} : c.isUpper = true ↔ 65 ≤ c.toNat ∧ c.toNat ≤ 90 :=
  decide_eq_true_iff (p := c.val ≥ 'A'.val ∧ c.val ≤ 'Z'.val)

/-- A small letter has the code of its capital one and 32. -/
theorem toNat_toLower (c : Char) :
    c.toLower.toNat = if c.isUpper then c.toNat + 32 else c.toNat := by
  unfold Char.toLower
  split
  case isTrue h =>
    have hc : c.isUpper = true := isUpper_iff.mpr h
    have hbound : c.val.toNat + 32 < UInt32.size := by
      have hle : c.val.toNat ≤ 90 := (isUpper_iff.mp hc).2
      change c.val.toNat + 32 < 4294967296
      omega
    rw [if_pos hc]
    change (c.val + 32).toNat = c.val.toNat + 32
    rw [UInt32.toNat_add]
    exact Nat.mod_eq_of_lt hbound
  case isFalse h =>
    have hc : ¬c.isUpper = true := fun hupper => h (isUpper_iff.mp hupper)
    rw [if_neg hc]

/-- Two characters fold to one when they are one letter, up to ASCII case. -/
theorem toLower_eq_iff {c d : Char} : c.toLower = d.toLower ↔ SameLetter c d := by
  rw [SameLetter, ← Char.toNat_inj, ← @Char.toNat_inj c d, toNat_toLower, toNat_toLower]
  simp only [isUpper_iff]
  split <;> split <;> omega

/-- Texts are equal in this sense if they have the same letter at every place. -/
theorem equalsIgnoringCase_iff {s t : String} :
    equalsIgnoringCase s t = true ↔
      s.toList.length = t.toList.length ∧
        ∀ (i : Nat) (hs : i < s.toList.length) (ht : i < t.toList.length),
          SameLetter s.toList[i] t.toList[i] := by
  rw [equalsIgnoringCase, beq_iff_eq, List.ext_getElem_iff]
  simp only [List.length_map, List.getElem_map, toLower_eq_iff]

end SchemaMigration
