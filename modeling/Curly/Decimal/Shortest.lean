import Curly.Decimal.Double

/-! The shortest decimal that reads back as a given double. The decimals that read back fill an
interval around the number; the coarsest decimal grid with a point in it gives the fewest digits,
and of two points on that grid the nearer is taken, the greater if both are as near. -/
namespace Curly

/-- The number `digits · 10 ^ scale`. -/
structure Decimal where
  digits : Nat
  scale : Int
deriving DecidableEq, Repr, Inhabited

/-- The interval of the quotients `x / den` that read back as one double: `value` is the double
itself, and the ends belong to the interval if `closed`. -/
structure Rounding where
  low : Nat
  value : Nat
  high : Nat
  den : Nat
  closed : Bool

namespace Rounding

/-- The interval of `significand · 2 ^ exponent`. Below the least significand of an exponent the
doubles lie twice as dense. -/
def of (significand : Nat) (exponent : Int) : Rounding :=
  let below := if significand = Nat.pow 2 52 ∧ Double.lowestExponent < exponent then 1 else 2
  let unit := Nat.pow 2 (exponent - 2).toNat
  { low := (4 * significand - below) * unit
    value := 4 * significand * unit
    high := (4 * significand + 2) * unit
    den := Nat.pow 2 (2 - exponent).toNat
    closed := significand % 2 = 0 }

def covers (r : Rounding) (x : Nat) : Bool :=
  if r.closed then r.low ≤ x && x ≤ r.high else r.low < x && x < r.high

def refine (r : Rounding) (factor : Nat) : Rounding :=
  { r with low := r.low * factor, value := r.value * factor, high := r.high * factor,
           den := r.den * factor }

/-- The point of the grid with steps of `10 ^ scale` that reads back, if there is one. -/
def onGrid? (r : Rounding) (scale : Int) : Option Decimal :=
  let fine := r.refine (Nat.pow 10 (-scale).toNat)
  let step := r.den * Nat.pow 10 scale.toNat
  let floor := fine.value / step
  let below := floor * step
  let above := below + step
  match fine.covers below, fine.covers above with
  | true, true =>
    some ⟨if fine.value - below < above - fine.value then floor else floor + 1, scale⟩
  | true, false => some ⟨floor, scale⟩
  | false, true => some ⟨floor + 1, scale⟩
  | false, false => none

end Rounding

/-- The grids from the coarsest that meets a finite double to the finest that is ever needed. -/
def grids : List Int :=
  (List.range 633).map fun (i : Nat) => (308 : Int) - i

def shortest (significand : Nat) (exponent : Int) : Decimal :=
  (grids.findSome? (Rounding.of significand exponent).onGrid?).getD ⟨0, 0⟩

example : shortest 7205759403792794 (-56) = ⟨1, -1⟩ := by decide +kernel
example : shortest 1 (-1074) = ⟨5, -324⟩ := by decide +kernel
example : shortest (Nat.pow 2 53 - 1) 971 = ⟨17976931348623157, 292⟩ := by decide +kernel

end Curly
