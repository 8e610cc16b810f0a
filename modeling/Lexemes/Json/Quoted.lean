import Lexemes.Json.Reader

namespace Lexemes.Json.Quoted

open Reader

def letters : List (Char × Char) :=
  [('"', '"'), ('\\', '\\'), ('/', '/'), ('b', '\x08'), ('f', '\x0c'), ('n', '\n'), ('r', '\r'),
    ('t', '\t')]

def hexDigit (n : Nat) : Char :=
  Nat.digitChar n

def encodeChar (c : Char) : List Char :=
  if c = '/' then [c]
  else
    match letters.find? fun p ↦ p.2 == c with
    | some (letter, _) => ['\\', letter]
    | none =>
      if c.toNat < 0x20 then ['\\', 'u', '0', '0', hexDigit (c.toNat / 16), hexDigit (c.toNat % 16)]
      else [c]

def encode (cs : List Char) : List Char :=
  '"' :: cs.flatMap encodeChar ++ ['"']

def hexValue? (c : Char) : Option Nat :=
  if c.isDigit then some (c.toNat - '0'.toNat)
  else if 'a' ≤ c ∧ c ≤ 'f' then some (c.toNat - 'a'.toNat + 10)
  else if 'A' ≤ c ∧ c ≤ 'F' then some (c.toNat - 'A'.toNat + 10)
  else none

/-- What has four bytes but is no unit is taken for one, in whatever characters they are. -/
def noUnit (cs : List Char) : Stop :=
  if byteSize cs < 4 then ⟨.unfinished .string, 0⟩ else ⟨.invalidEscape, byteSize cs - 4⟩

def unitOf (cs : List Char) : Except Stop (Nat × List Char) :=
  match cs with
  | a :: b :: c :: d :: rest =>
    match hexValue? a, hexValue? b, hexValue? c, hexValue? d with
    | some a, some b, some c, some d => .ok (((a * 16 + b) * 16 + c) * 16 + d, rest)
    | _, _, _, _ => .error (noUnit cs)
  | _ => .error (noUnit cs)

def unit : Reader Nat where
  run := unitOf
  suffix := by
    intro cs n rest h
    unfold unitOf at h
    split at h
    · split at h
      · cases h
        exact List.suffix_append [_, _, _, _] _
      · cases h
    · cases h

def isHighSurrogate (n : Nat) : Bool :=
  decide (0xD800 ≤ n) && decide (n ≤ 0xDBFF)

def isLowSurrogate (n : Nat) : Bool :=
  decide (0xDC00 ≤ n) && decide (n ≤ 0xDFFF)

def pairMark (c : Char) : Reader Unit := do
  let d ← take (.unfinished .string)
  if d = c then pure () else refuse d .brokenSurrogatePair

def codePoint : Reader Char := do
  let high ← unit
  if isLowSurrogate high then fail .loneSurrogate
  else if isHighSurrogate high then
    pairMark '\\'
    pairMark 'u'
    let low ← unit
    if isLowSurrogate low then
      pure (Char.ofNat (0x10000 + (high - 0xD800) * 0x400 + (low - 0xDC00)))
    else fail .loneSurrogate
  else pure (Char.ofNat high)

def escape (point : Reader Char) : Reader Char := do
  let c ← take (.unfinished .string)
  match letters.lookup c with
  | some d => pure d
  | none => if c = 'u' then point else refuse c .invalidEscape

structure Manner where
  point : Reader Char
  /-- The bytes of a control character that are left when it is found. -/
  uncounted : Nat

def turn (m : Manner) (read : List Char) : Reader (Turn (List Char) (List Char)) := do
  let c ← take (.unfinished .string)
  if c = '"' then pure (.done read.reverse)
  else if c = '\\' then
    let d ← escape m.point
    pure (.again (d :: read))
  else if c.toNat < 0x20 then stop m.uncounted .controlCharacter
  else pure (.again (c :: read))

theorem takes_turn (m : Manner) (read : List Char) : (turn m read).Takes :=
  takes_bind (takes_take _)

def body (m : Manner) : Reader (List Char) :=
  loop (turn m) (takes_turn m) []

def kept : Manner := ⟨codePoint, 0⟩

/-- A unit that is passed over need not belong to a code point. -/
def passedOver : Manner where
  point := do
    let _ ← unit
    pure '\ufffd'
  uncounted := 1

def text : Reader String := do
  let cs ← body kept
  pure (String.ofList cs)

def ignored : Reader Unit := do
  let _ ← body passedOver

end Lexemes.Json.Quoted
