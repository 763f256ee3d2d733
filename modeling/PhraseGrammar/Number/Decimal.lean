/-! Decimal numerals as they are written: a sign, digits and a power of ten. -/

namespace PhraseGrammar

/-- A written number: its leading digits, read as one natural number, times a power of ten. -/
structure Decimal where
  /-- Whether a minus sign stands in front; a negative zero keeps it. -/
  negative : Bool
  /-- The leading digits of the whole part and of the fraction together. -/
  digits : Nat
  /-- The power of ten. -/
  exponent : Int
  /-- Whether these are all the digits of a number without a fraction and without an exponent. -/
  integral : Bool
deriving DecidableEq, Repr

namespace Decimal

/-- A natural number as it is written. -/
def ofNat (n : Nat) : Decimal :=
  ⟨false, n, 0, true⟩

/-- The natural number that a numeral writes without sign, fraction and exponent. -/
def toNat? (d : Decimal) : Option Nat :=
  if d.integral && !d.negative then some d.digits else none

end Decimal

end PhraseGrammar
