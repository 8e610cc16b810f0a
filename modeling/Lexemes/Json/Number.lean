import Lexemes.Double.Shortest

namespace Lexemes.Json

inductive Number
  | whole (n : Int)
  | real (negative : Bool) (magnitude : Double)
  deriving DecidableEq

namespace Number

def greatest : Nat := 18446744073709551615

def fits (n : Int) : Bool :=
  decide (-9223372036854775808 ≤ n) && decide (n ≤ greatest)

/-- Digits before the point, up to which a real is written without an exponent. -/
def positionalDigits : Int := 16

def positionalZeros : Int := 5

def exponentForm (digits : List Char) (exponent : Int) : List Char :=
  let fraction := if digits.length ≤ 1 then [] else '.' :: digits.drop 1
  let sign := if exponent < 0 then '-' else '+'
  digits.take 1 ++ fraction ++ 'e' :: sign :: Nat.toDigits 10 exponent.natAbs

def pointForm (digits : List Char) (point : Int) : List Char :=
  if point ≤ 0 then '0' :: '.' :: List.replicate point.natAbs '0' ++ digits
  else if point < digits.length then digits.take point.toNat ++ '.' :: digits.drop point.toNat
  else digits ++ List.replicate (point.toNat - digits.length) '0' ++ ['.', '0']

/-- A real shows at least one digit on each side of its point and no zeros at its ends beyond that;
the very large and the very small have an exponent. -/
def realForm (x : Double) : List Char :=
  if x.significand = 0 then ['0', '.', '0']
  else
    let (shortest, power) := x.shortest
    let all := Nat.toDigits 10 shortest
    let digits := (all.reverse.dropWhile (· == '0')).reverse
    let point := all.length + power
    if -positionalZeros < point ∧ point ≤ positionalDigits then pointForm digits point
    else exponentForm digits (point - 1)

def text : Number → String
  | whole n => toString n
  | real negative x => String.ofList (if negative then '-' :: realForm x else realForm x)

example : (real false (.nearest 100 1)).text = "100.0" := by decide +kernel
example : (real true (.nearest 3 2)).text = "-1.5" := by decide +kernel
example : (real true .zero).text = "-0.0" := by decide +kernel

end Number

end Lexemes.Json
