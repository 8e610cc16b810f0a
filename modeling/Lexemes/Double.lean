namespace Lexemes

/-- The magnitude `significand * 2 ^ exponent`. There is a least exponent but no greatest one: what
is too large for a double is no longer `isFinite`. -/
structure Double where
  significand : Nat
  exponent : Int
  deriving DecidableEq

namespace Double

def leastExponent : Int := -1074

def greatestExponent : Int := 971

def zero : Double := ⟨0, leastExponent⟩

def isFinite (x : Double) : Bool :=
  decide (x.exponent ≤ greatestExponent)

def numerator (x : Double) : Nat :=
  x.significand * Nat.pow 2 x.exponent.toNat

def denominator (x : Double) : Nat :=
  Nat.pow 2 (-x.exponent).toNat

def halfEven (n d : Nat) : Nat :=
  let q := n / d
  let r := n % d
  if 2 * r < d ∨ 2 * r = d ∧ q % 2 = 0 then q else q + 1

def binaryOrder (n d : Nat) : Int :=
  let guess : Int := n.log2 - d.log2
  if d * Nat.pow 2 guess.toNat ≤ n * Nat.pow 2 (-guess).toNat then guess else guess - 1

/-- The magnitude next to `n / d`. Rounding up may take the significand to 2^53, one too many. -/
def nearest (n d : Nat) : Double :=
  if n = 0 then zero
  else
    let exponent := max (binaryOrder n d - 52) leastExponent
    let significand := halfEven (n * Nat.pow 2 (-exponent).toNat) (d * Nat.pow 2 exponent.toNat)
    if significand = Nat.pow 2 53 then ⟨Nat.pow 2 52, exponent + 1⟩ else ⟨significand, exponent⟩

def times (x y : Double) : Double :=
  nearest (x.numerator * y.numerator) (x.denominator * y.denominator)

def dividedBy (x y : Double) : Double :=
  nearest (x.numerator * y.denominator) (x.denominator * y.numerator)

def tenTo (k : Nat) : Double :=
  nearest (Nat.pow 10 k) 1

example : nearest 1 10 = ⟨7205759403792794, -56⟩ := by decide +kernel
example : nearest 9007199254740993 1 = ⟨4503599627370496, 1⟩ := by decide +kernel
example : (tenTo 308).isFinite = true ∧ (tenTo 309).isFinite = false := by decide +kernel

end Double

end Lexemes
