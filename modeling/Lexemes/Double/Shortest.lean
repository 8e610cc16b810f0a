import Lexemes.Double

namespace Lexemes.Double

def isNarrowBelow (x : Double) : Bool :=
  x.significand == Nat.pow 2 52 && decide (leastExponent < x.exponent)

/-- Whether `x` is next to `digits * 10 ^ power`. Halfway between two magnitudes the even one is.
Both sides are counted in quarters of the last place of `x`. -/
def isNearest (x : Double) (digits : Nat) (power : Int) : Bool :=
  let given := 4 * digits * Nat.pow 10 power.toNat * x.denominator
  let unit := Nat.pow 10 (-power).toNat * Nat.pow 2 x.exponent.toNat
  let low := (4 * x.significand - if x.isNarrowBelow then 1 else 2) * unit
  let high := (4 * x.significand + 2) * unit
  if x.significand % 2 = 0 then decide (low ≤ given) && decide (given ≤ high)
  else decide (low < given) && decide (given < high)

def decimalOrder (x : Double) : Int :=
  if x.denominator ≤ x.numerator then (Nat.toDigits 10 (x.numerator / x.denominator)).length
  else 1 - ((Nat.toDigits 10 ((x.denominator - 1) / x.numerator)).length : Int)

/-- The multiple of `10 ^ power` that stands for `x`: one of the two that enclose it, and of two
that do the nearer. -/
def onGrid? (x : Double) (power : Int) : Option Nat :=
  let n := x.numerator * Nat.pow 10 (-power).toNat
  let d := x.denominator * Nat.pow 10 power.toNat
  let below := n / d
  match x.isNearest below power, x.isNearest (below + 1) power with
  | true, true => some (halfEven n d)
  | true, false => some below
  | false, true => some (below + 1)
  | false, false => none

def exact (x : Double) : Nat × Int :=
  (x.numerator * Nat.pow 5 (-x.exponent).toNat, min x.exponent 0)

def shortest (x : Double) : Nat × Int :=
  let order := x.decimalOrder
  let found := (List.range 17).findSome? fun (k : Nat) ↦
    let power := order - 1 - k
    (x.onGrid? power).map fun digits ↦ (digits, power)
  found.getD x.exact

example : (nearest 3 10).shortest = (3, -1) := by decide +kernel
example : (nearest (Nat.pow 10 23) 1).shortest = (10, 22) := by decide +kernel
example : (Double.mk 1 leastExponent).shortest = (5, -324) := by decide +kernel

end Lexemes.Double
