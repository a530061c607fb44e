/-! Binary floating-point numbers of 64 bits, as exact values. `Double.ofRatio` gives the number
nearest to a quotient, with ties to the even significand. -/
namespace Curly

/-- `finite negative significand exponent` is the number ± significand · 2 ^ exponent. -/
inductive Double where
  | nan
  | infinite (negative : Bool)
  | finite (negative : Bool) (significand : Nat) (exponent : Int)
deriving DecidableEq, Repr, Inhabited

/-- The whole number nearest to `num / den`, the even one of two. -/
def roundHalfEven (num den : Nat) : Nat :=
  let quotient := num / den
  let rest := 2 * (num % den)
  if rest < den then quotient
  else if den < rest then quotient + 1
  else if quotient % 2 = 0 then quotient
  else quotient + 1

namespace Double

def lowestExponent : Int := -1074

def highestExponent : Int := 971

/-- Significands stay below this bound, and at or above its half unless the exponent is lowest. -/
def significandBound : Nat := Nat.pow 2 53

def zero (negative : Bool) : Double := .finite negative 0 lowestExponent

/-- `num / den` in units of `2 ^ exponent`, as a pair again. -/
def inUnits (num den : Nat) (exponent : Int) : Nat × Nat :=
  if 0 ≤ exponent then (num, den * Nat.pow 2 exponent.toNat)
  else (num * Nat.pow 2 (-exponent).toNat, den)

/-- The exponent at which the quotient keeps 53 binary digits, or the lowest one. -/
def fittingExponent (num den : Nat) : Int :=
  let guess := (num.log2 : Int) - den.log2 - 52
  let scaled := inUnits num den guess
  let exact := if scaled.1 < scaled.2 * Nat.pow 2 52 then guess - 1 else guess
  max exact lowestExponent

/-- The double nearest to ± num / den, where `den` is positive. -/
def ofRatio (negative : Bool) (num den : Nat) : Double :=
  if num = 0 then zero negative
  else
    let exponent := fittingExponent num den
    let scaled := inUnits num den exponent
    let rounded := roundHalfEven scaled.1 scaled.2
    let (significand, exponent) :=
      if rounded = significandBound then (rounded / 2, exponent + 1) else (rounded, exponent)
    if highestExponent < exponent then .infinite negative
    else .finite negative significand exponent

/-- The double nearest to ± digits · 10 ^ scale. A decimal point far outside the range of finite
numbers settles the answer before any power is taken. -/
def ofDecimal (negative : Bool) (digits : Nat) (scale : Int) : Double :=
  let point := ((Nat.toDigits 10 digits).length : Int) + scale
  if digits = 0 || point < -400 then zero negative
  else if 400 < point then .infinite negative
  else if 0 ≤ scale then ofRatio negative (digits * Nat.pow 10 scale.toNat) 1
  else ofRatio negative digits (Nat.pow 10 (-scale).toNat)

example : ofDecimal false 1 (-1) = .finite false 7205759403792794 (-56) := by decide +kernel
example : ofDecimal false 5 (-324) = .finite false 1 (-1074) := by decide +kernel
example : ofDecimal false 179769313486231570 291 = .finite false (Nat.pow 2 53 - 1) 971 := by
  decide +kernel
example : ofDecimal false 18 307 = .infinite false := by decide +kernel

end Double
end Curly
