/-!
# Magnitudes of written numbers

A number in decimal is read into a significand of 64 bits and an exponent. Digits beyond the
significand do not count, except that those before the point make the exponent greater.
`Magnitude.isTooGreat` says that no double holds it when both factors are rounded before they are
multiplied.
-/

namespace Bindery.Json

def digitValue (c : Char) : Nat := c.toNat - '0'.toNat

/-- Adds digits to a significand as long as it fits 64 bits, and tells which are left. -/
def takeDigits (n : Nat) : List Char → Nat × List Char
  | [] => (n, [])
  | c :: cs =>
    if n * 10 + digitValue c < 1 <<< 64 then takeDigits (n * 10 + digitValue c) cs
    else (n, c :: cs)

structure Magnitude where
  significand : Nat
  /-- The power of ten by which the significand is multiplied. -/
  exponent : Int
  deriving DecidableEq, Inhabited

namespace Magnitude

/-- The magnitude of `whole.frac` times a power of ten. -/
def ofDigits (whole frac : List Char) (exponent : Int) : Magnitude :=
  let (n, counted) := takeDigits 0 whole
  let (m, dropped) := takeDigits n frac
  { significand := m
    exponent := counted.length - (frac.length - dropped.length : Nat) + exponent }

end Magnitude

/-- The nearest number with 53 significant bits; of two, the one whose last bit is zero. -/
def roundToDouble (n : Nat) : Nat :=
  let unit := 1 <<< (n.log2 - 52)
  let below := n - n % unit
  if unit < 2 * (n % unit) ∨ unit = 2 * (n % unit) ∧ below / unit % 2 = 1 then below + unit
  else below

/-- The least natural number that no double is near, `2 ^ 1024 - 2 ^ 970`. -/
def doubleLimit : Nat := 1 <<< 1024 - 1 <<< 970

/-- The greatest power of ten that is a factor. -/
def maxExponent : Nat := 308

def Magnitude.isTooGreat (m : Magnitude) : Bool :=
  m.significand ≠ 0 && 0 ≤ m.exponent && (maxExponent < m.exponent ||
    doubleLimit ≤ roundToDouble m.significand * roundToDouble (Nat.pow 10 m.exponent.toNat))

end Bindery.Json
