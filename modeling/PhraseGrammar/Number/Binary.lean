import PhraseGrammar.Number.Decimal

/-! Binary floating point magnitudes, and rounding to the nearest of them with ties to even. -/

namespace PhraseGrammar

/-- A binary format: how many bits a number has, and where its grid of numbers begins and ends. -/
structure Binary where
  /-- The number of significant bits. -/
  precision : Nat
  /-- The exponent of the smallest positive number, which is a power of two. -/
  leastExponent : Int
  /-- The code of infinity: how many finite magnitudes there are. -/
  infinity : Nat

namespace Binary

/-- The format with 24 significant bits in 32. -/
def single : Binary :=
  ⟨24, -149, 0x7F800000⟩

/-- The format with 53 significant bits in 64. -/
def double : Binary :=
  ⟨53, -1074, 0x7FF0000000000000⟩

/-- A quotient rounded to the nearest natural number, a half going to the even neighbour. -/
def roundDiv (num den : Nat) : Nat :=
  let floor := num / den
  let twice := 2 * (num % den)
  if den < twice || (twice = den && floor % 2 = 1) then floor + 1 else floor

/-- The exponent of the greatest power of two that is not above a positive quotient. -/
def floorLog (num den : Nat) : Int :=
  let guess : Int := num.log2 - den.log2
  -- The logarithms of both parts are rounded down, so the guess is right or one too high.
  if den <<< guess.toNat ≤ num <<< (-guess).toNat then guess else guess - 1

/-- The code of the magnitude nearest to a quotient; magnitudes are numbered upwards from zero. -/
def round (format : Binary) (num den : Nat) : Nat :=
  if num = 0 then 0
  else
    let exponent := max format.leastExponent (floorLog num den - format.precision + 1)
    let significand := roundDiv (num <<< (-exponent).toNat) (den <<< exponent.toNat)
    -- Every exponent above the least one has half the significands for itself.
    let code := (exponent - format.leastExponent).toNat <<< (format.precision - 1) + significand
    min format.infinity code

/-- The significand and the exponent of the finite magnitude with that code. -/
def decode (format : Binary) (code : Nat) : Nat × Int :=
  let half := 1 <<< (format.precision - 1)
  if code < half then (code, format.leastExponent)
  else (half + code % half, format.leastExponent + (code / half - 1 : Nat))

/-- The code of the magnitude nearest to a quotient times a power of two. -/
def roundScaled (format : Binary) (num den : Nat) (exponent : Int) : Nat :=
  format.round (num <<< exponent.toNat) (den <<< (-exponent).toNat)

/-- The code of the magnitude nearest to the product of two finite ones. -/
def mul (format : Binary) (a b : Nat) : Nat :=
  let (m, p) := format.decode a
  let (n, q) := format.decode b
  format.roundScaled (m * n) 1 (p + q)

/-- The code of the magnitude nearest to the quotient of two finite ones. -/
def div (format : Binary) (a b : Nat) : Nat :=
  let (m, p) := format.decode a
  let (n, q) := format.decode b
  format.roundScaled m n (p - q)

/-- The exponent of the greatest power of ten among the doubles. -/
def mostTens : Nat :=
  308

/-- The code of the double magnitude nearest to a power of ten. -/
def powerOfTen (tens : Nat) : Nat :=
  double.round (Nat.pow 10 tens) 1

/-- A double magnitude divided by a power of ten, in steps that are powers among the doubles. -/
def divideByTens (code tens : Nat) : Nat :=
  -- Every division rounds, and one that has come to zero stays there.
  if code = 0 then 0
  else if tens ≤ mostTens then double.div code (powerOfTen tens)
  else divideByTens (double.div code (powerOfTen mostTens)) (tens - mostTens)
termination_by tens
decreasing_by
  have more : mostTens < tens := Nat.lt_of_not_le ‹_›
  exact Nat.sub_lt (Nat.zero_lt_of_lt more) (by decide)

/-- A double magnitude multiplied by a power of ten; beyond the doubles lies infinity. -/
def multiplyByTens (code tens : Nat) : Nat :=
  if code = 0 then 0
  else if tens ≤ mostTens then double.mul code (powerOfTen tens)
  else double.infinity

/-- The code of the double magnitude that a numeral is read as; it need not be the nearest. -/
def doubleOfDecimal (d : Decimal) : Nat :=
  -- The digits, the power of ten and what the two come to are rounded one by one.
  let code := double.round d.digits 1
  if 0 ≤ d.exponent then multiplyByTens code d.exponent.toNat
  else divideByTens code (-d.exponent).toNat

/-- The code of the single magnitude nearest to the double magnitude with that code. -/
def singleOfDouble (code : Nat) : Nat :=
  let (significand, exponent) := double.decode code
  single.roundScaled significand 1 exponent

/-- Rounding never goes beyond infinity. -/
theorem round_le (format : Binary) (num den : Nat) : format.round num den ≤ format.infinity := by
  unfold round
  split
  · exact Nat.zero_le _
  · exact Nat.min_le_left _ _

end Binary

end PhraseGrammar
