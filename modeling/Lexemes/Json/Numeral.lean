import Lexemes.Json.Reader

namespace Lexemes.Json

structure Numeral where
  negative : Bool
  whole : List Char
  fraction : Option (List Char)
  exponent : Option (Bool × List Char)

open Reader

namespace Numeral

def someDigits (cut : Flaw) : Reader (List Char) := do
  match ← look with
  | none => fail cut
  | some c =>
    if c.isDigit then takeWhile Char.isDigit
    else do
      skip
      refuse c .invalidNumber

def wholeDigits (first : Char) : Reader (List Char) :=
  if first.isDigit then do
    let more ← takeWhile Char.isDigit
    if first = '0' ∧ more ≠ [] then stop (more.length - 1) .invalidNumber
    else pure (first :: more)
  else refuse first .invalidNumber

def fractionDigits (cut : Flaw) : Reader (Option (List Char)) := do
  match ← look with
  | some '.' =>
    skip
    let digits ← someDigits cut
    pure (some digits)
  | _ => pure none

def exponentSign : Reader Bool := do
  match ← look with
  | some '-' =>
    skip
    pure true
  | some '+' =>
    skip
    pure false
  | _ => pure false

def exponentDigits (cut : Flaw) : Reader (Option (Bool × List Char)) := do
  match ← look with
  | some 'e' | some 'E' =>
    skip
    let negative ← exponentSign
    let digits ← someDigits cut
    pure (some (negative, digits))
  | _ => pure none

def read (cut : Flaw) (first : Char) : Reader Numeral := do
  let negative := first == '-'
  let digit ← if negative then take cut else pure first
  let whole ← wholeDigits digit
  let fraction ← fractionDigits cut
  let exponent ← exponentDigits cut
  pure ⟨negative, whole, fraction, exponent⟩

def digit (c : Char) : Nat :=
  c.toNat - '0'.toNat

def ofDigits (cs : List Char) : Nat :=
  cs.foldl (fun n c ↦ 10 * n + digit c) 0

def gather : Nat → List Char → Nat × Nat
  | significand, [] => (significand, 0)
  | significand, c :: cs =>
    let next := 10 * significand + digit c
    if next ≤ Number.greatest then
      let (full, taken) := gather next cs
      (full, taken + 1)
    else (significand, 0)

def powerLimit : Nat := 308

/-- A quotient by a power of ten beyond the limit takes two steps, each of them rounded. Nothing is
left of a significand of 64 bits after two full steps. -/
def scaleDown (x : Double) (k : Nat) : Double :=
  if k ≤ powerLimit then x.dividedBy (.tenTo k)
  else if k ≤ 2 * powerLimit then
    (x.dividedBy (.tenTo powerLimit)).dividedBy (.tenTo (k - powerLimit))
  else .zero

def magnitude? (significand : Nat) (power : Int) : Option Double :=
  let x := Double.nearest significand 1
  if power < 0 then some (scaleDown x power.natAbs)
  else if significand = 0 then some x
  else if powerLimit < power then none
  else
    let scaled := x.times (.tenTo power.toNat)
    if scaled.isFinite then some scaled else none

def exponentValue (n : Numeral) : Int :=
  match n.exponent with
  | none => 0
  | some (true, digits) => -ofDigits digits
  | some (false, digits) => ofDigits digits

/-- Digits that are too many for the significand count as zeros before the point and not at all
behind it. -/
def real? (n : Numeral) : Option Double :=
  let (whole, taken) := gather 0 n.whole
  let (significand, places) := gather whole (n.fraction.getD [])
  magnitude? significand (n.exponentValue + (n.whole.length - taken : Nat) - places)

def toNumber (n : Numeral) : Except Flaw Number :=
  let whole := ofDigits n.whole
  let value : Int := if n.negative then -whole else whole
  let isWhole := n.fraction.isNone && n.exponent.isNone && Number.fits value
  if isWhole ∧ ¬(n.negative ∧ whole = 0) then .ok (.whole value)
  else
    match n.real? with
    | some x => .ok (.real n.negative x)
    | none => .error .numberOutOfRange

def exponentLimit : Nat := 2147483647

/-- How many digits are left of an exponent, of which no more is read once it is too large. -/
def unread (n : Numeral) : Nat :=
  let digits := (n.exponent.map Prod.snd).getD []
  let isTooLarge (k : Nat) : Bool := decide (exponentLimit < ofDigits (digits.take k))
  digits.length - ((List.range digits.length).find? isTooLarge).getD digits.length

example : unread ⟨false, ['1'], none, some (false, "21474836470".toList)⟩ = 0 := by decide +kernel
example : unread ⟨false, ['1'], none, some (false, "99999999990".toList)⟩ = 1 := by decide +kernel

end Numeral

def readNumber (first : Char) : Reader Number := do
  let n ← Numeral.read (.unfinished .value) first
  match n.toNumber with
  | .ok x => pure x
  | .error e => stop n.unread e

end Lexemes.Json
