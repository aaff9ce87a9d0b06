/-!
Non-negative numbers of the format binary64, and the nearest one to a fraction. A tie goes to
the even significand.
-/

namespace SchemaMigration

structure Binary64 where
  significand : Nat
  exponent : Int
  deriving DecidableEq, Repr

def roundHalfEven (num den : Nat) : Nat :=
  let k := num / den
  let r := num % den
  if 2 * r < den then k else if den < 2 * r then k + 1 else k + k % 2

/-- A fraction is within half of one of the integer that it rounds to. -/
theorem roundHalfEven_error (num : Nat) {den : Nat} (h : 0 < den) :
    2 * num ≤ (2 * roundHalfEven num den + 1) * den ∧
      2 * roundHalfEven num den * den ≤ 2 * num + den := by
  have hd := Nat.div_add_mod num den
  have hlt := Nat.mod_lt num h
  have hm : (num / den) * den = den * (num / den) := Nat.mul_comm _ _
  have h2 : 2 * (num / den) * den = 2 * (den * (num / den)) := by rw [Nat.mul_assoc, hm]
  unfold roundHalfEven
  dsimp only
  split
  · rw [Nat.add_mul, h2]; omega
  · split
    -- Above the middle the next integer is the nearest.
    · have h3 : 2 * (num / den + 1) * den = 2 * (den * (num / den)) + 2 * den := by
        rw [Nat.mul_add, Nat.add_mul, h2]
      rw [Nat.add_mul, h3]; omega
    -- In the middle both are at the same distance.
    · have hpar := Nat.mod_two_eq_zero_or_one (num / den)
      rcases hpar with hp | hp <;> rw [hp]
      · rw [Nat.add_mul, Nat.add_zero, h2]; omega
      · have h3 : 2 * (num / den + 1) * den = 2 * (den * (num / den)) + 2 * den := by
          rw [Nat.mul_add, Nat.add_mul, h2]
        rw [Nat.add_mul, h3]; omega

def scaleDown (num den : Nat) (e : Int) : Nat × Nat :=
  (num <<< (-e).toNat, den <<< e.toNat)

def floorLog2 (num den : Nat) : Int :=
  -- The bit lengths give the answer or one more than it.
  let e := (num.log2 : Int) - den.log2
  let (n, d) := scaleDown num den e
  if d ≤ n then e else e - 1

namespace Binary64

/-- The number nearest to `num / den`, or `none` when that rounds beyond the largest one. A
significand has at most 53 bits, and no exponent is below -1074. -/
def nearest? (num den : Nat) : Option Binary64 :=
  if num = 0 then some ⟨0, 0⟩
  else
    -- Rounding may carry into a 54th bit; then the significand is even and the value the same.
    let e := max (floorLog2 num den - 52) (-1074)
    let (n, d) := scaleDown num den e
    let m := roundHalfEven n d
    if 1 <<< 1024 ≤ m <<< e.toNat then none else some ⟨m, e⟩

def toNat? (x : Binary64) : Option Nat :=
  let d := 1 <<< (-x.exponent).toNat
  if x.significand % d = 0 then some ((x.significand / d) <<< x.exponent.toNat) else none

end Binary64

end SchemaMigration
