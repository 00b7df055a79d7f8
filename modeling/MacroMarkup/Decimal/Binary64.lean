import MacroMarkup.Decimal.Notation

/-! Numbers in the binary64 format, by their bits, and the number nearest to a
decimal. -/
namespace MacroMarkup.Binary64

def infinity : UInt64 := 0x7FF0000000000000
def negativeInfinity : UInt64 := 0xFFF0000000000000
def nan : UInt64 := 0x7FF8000000000000

/-- The bits without the sign. -/
def magnitude (bits : UInt64) : Nat :=
  bits.toNat % Decimal.twoTo 63

def isNegative (bits : UInt64) : Bool :=
  Decimal.twoTo 63 ≤ bits.toNat

def isNaN (bits : UInt64) : Bool :=
  infinity.toNat < magnitude bits

def isInfinite (bits : UInt64) : Bool :=
  magnitude bits = infinity.toNat

def isFinite (bits : UInt64) : Bool :=
  magnitude bits < infinity.toNat

/-- Equality of the numbers that bits stand for. Both zeros are equal, and here
so are all bits that stand for no number. -/
def sameNumber (left right : UInt64) : Bool :=
  left = right || (isNaN left && isNaN right) ||
    (magnitude left = 0 && magnitude right = 0)

/-- Division rounded to the nearest integer, a half to the even one. -/
def roundDiv (num den : Nat) : Nat :=
  let quotient := num / den
  let twice := 2 * (num % den)
  if den < twice ∨ (twice = den ∧ quotient % 2 = 1) then quotient + 1 else quotient

/-- The greatest `e` with `2 ^ e ≤ num / den`, for positive arguments. -/
def floorLog2 (num den : Nat) : Int :=
  let guess : Int := (num.log2 : Int) - den.log2
  let below :=
    if 0 ≤ guess then num < den * Decimal.twoTo guess.toNat
    else num * Decimal.twoTo (-guess).toNat < den
  if below then guess - 1 else guess

/-- The bits of the positive number nearest to `num / den`, a half going to the
even neighbour. What is too great becomes infinity. -/
def ofQuotient (num den : Nat) : Nat :=
  if num = 0 then 0
  else
    let unit : Int := max (floorLog2 num den - 52) (-1074)
    let significand :=
      if 0 ≤ unit then roundDiv num (den * Decimal.twoTo unit.toNat)
      else roundDiv (num * Decimal.twoTo (-unit).toNat) den
    let bits :=
      if significand < Decimal.twoTo 52 then significand
      else (unit + 1075).toNat * Decimal.twoTo 52 + (significand - Decimal.twoTo 52)
    min bits infinity.toNat

/-- The bits of the number nearest to a decimal. The two outer branches decide
what is far out of range without computing a huge power. -/
def ofDecimal (number : Decimal.Notation) : UInt64 :=
  let places : Int := (Nat.toDigits 10 number.digits).length + number.exponent
  let positive :=
    if number.digits = 0 ∨ places < -400 then 0
    else if 400 < places then infinity.toNat
    else if 0 ≤ number.exponent then
      ofQuotient (number.digits * Decimal.tenTo number.exponent.toNat) 1
    else ofQuotient number.digits (Decimal.tenTo (-number.exponent).toNat)
  UInt64.ofNat (if number.negative then positive + Decimal.twoTo 63 else positive)

end MacroMarkup.Binary64
