import SchemaMigration.Numeral.Binary64
import SchemaMigration.Numeral.Integer

namespace SchemaMigration

structure Decimal where
  negative : Bool
  digits : Nat
  exponent : Int
  deriving DecidableEq, Repr

namespace Decimal

def exponentValue (ds : List Char) : Nat :=
  -- The value stops growing at 65536, far beyond the range of binary64.
  ds.foldl (fun n c => if n < 0x10000 then 10 * n + (c.toNat - '0'.toNat) else n) 0

def readExponent? : List Char → Option Int
  | [] => some 0
  | c :: cs =>
    let (negative, ds) := takeSign cs
    if (c = 'e' ∨ c = 'E') ∧ ds ≠ [] ∧ ds.all Char.isDigit then
      some (if negative then -(exponentValue ds : Int) else exponentValue ds)
    else none

def takeFraction : List Char → List Char × List Char
  | '.' :: cs => (cs.takeWhile Char.isDigit, cs.dropWhile Char.isDigit)
  | cs => ([], cs)

def read? (cs : List Char) : Option Decimal :=
  -- A digit on either side of the point is enough.
  let (negative, cs) := takeSign cs
  -- The point itself may be absent, as in an integer with an exponent.
  let whole := cs.takeWhile Char.isDigit
  let (fraction, rest) := takeFraction (cs.dropWhile Char.isDigit)
  if whole ++ fraction = [] then none
  else
    (readExponent? rest).map fun e =>
      ⟨negative, Nat.ofDigitChars 10 (whole ++ fraction) 0, e - fraction.length⟩

def toBinary64? (d : Decimal) : Option Binary64 :=
  Binary64.nearest? (d.digits * Nat.pow 10 d.exponent.toNat) (Nat.pow 10 (-d.exponent).toNat)

def toInt64? (d : Decimal) : Option Int64 :=
  -- Beyond the range of 64 bits it is the nearer end.
  (d.toBinary64?.bind Binary64.toNat?).map fun n =>
    Int64.ofIntClamp (if d.negative then -(n : Int) else n)

end Decimal

def readWhole? (cs : List Char) : Option Int64 :=
  (readInt64? cs).or ((Decimal.read? cs).bind Decimal.toInt64?)

end SchemaMigration
