import PhraseGrammar.Number.Binary

/-! How sure an analysis is: a single precision value, compared as such values are. -/

namespace PhraseGrammar

/-- The sign bit of single precision alone, which lies above every magnitude. -/
def Confidence.signBit : Nat :=
  0x80000000

/-- A single precision value: a number, an infinity, or none of them. -/
structure Confidence where
  /-- Whether the sign bit is set. -/
  negative : Bool
  /-- The code of the magnitude; the codes beyond infinity are those of no number. -/
  magnitude : Nat
  /-- A magnitude leaves the sign bit free. -/
  bounded : magnitude < Confidence.signBit := by decide

namespace Confidence

/-- The confidence of a reading that states none. -/
def one : Confidence where
  negative := false
  magnitude := 0x3F800000

instance : Inhabited Confidence :=
  ⟨one⟩

/-- Whether it is a number or an infinity, and so has a place in the order of numbers. -/
def isNumber (c : Confidence) : Bool :=
  c.magnitude ≤ Binary.single.infinity

/-- The place of a confidence in the order of numbers; both zeros share one. -/
def rank (c : Confidence) : Int :=
  if c.negative then -(c.magnitude : Int) else c.magnitude

/-- Two confidences are equal as numbers; what is no number equals nothing, not even itself. -/
instance : BEq Confidence :=
  ⟨fun a b => a.isNumber && b.isNumber && a.rank = b.rank⟩

/-- Whether the first confidence is above the second, for which both have to be numbers. -/
def above (a b : Confidence) : Bool :=
  a.isNumber && b.isNumber && b.rank < a.rank

/-- The 32 bits of a confidence as a number. -/
def bits (c : Confidence) : Nat :=
  if c.negative then signBit + c.magnitude else c.magnitude

/-- The confidence with that sign and that magnitude, if it is one. -/
def ofMagnitude? (negative : Bool) (magnitude : Nat) : Option Confidence :=
  if bounded : magnitude < signBit then some ⟨negative, magnitude, bounded⟩ else none

/-- The confidence with those bits, if there are no more than 32 of them. -/
def ofBits? (bits : Nat) : Option Confidence :=
  if bits < signBit then ofMagnitude? false bits else ofMagnitude? true (bits - signBit)

/-- The bits of a confidence stand for it. -/
theorem ofBits?_bits (c : Confidence) : ofBits? c.bits = some c := by
  obtain ⟨negative, magnitude, bounded⟩ := c
  cases negative with
  | false =>
    change ofBits? magnitude = _
    rw [ofBits?, if_pos bounded, ofMagnitude?, dif_pos bounded]
  | true =>
    change ofBits? (signBit + magnitude) = _
    rw [ofBits?, if_neg (Nat.not_lt.mpr (Nat.le_add_right ..)), Nat.add_sub_cancel_left,
      ofMagnitude?, dif_pos bounded]

/-- A code that rounding has given leaves the sign bit free. -/
theorem round_lt_signBit (num den : Nat) : Binary.single.round num den < signBit :=
  Nat.lt_of_le_of_lt (Binary.round_le ..) (by decide)

/-- Whether a numeral is an integer that fits into 64 bits; a negative zero does not count as one. -/
def isWord (d : Decimal) : Bool :=
  d.integral && (if d.negative then 0 < d.digits && 2 * d.digits ≤ UInt64.size
    else d.digits < UInt64.size)

/-- The confidence that a numeral writes, or none if it is beyond double precision. -/
def ofDecimal? (d : Decimal) : Option Confidence :=
  -- A 64 bit integer is rounded once; any other number is rounded to double precision first.
  if isWord d then some ⟨d.negative, Binary.single.round d.digits 1, round_lt_signBit ..⟩
  else
    let code := Binary.doubleOfDecimal d
    if code = Binary.double.infinity then none
    else some ⟨d.negative, Binary.singleOfDouble code, round_lt_signBit ..⟩

end Confidence

end PhraseGrammar
