import Lexemes.Json.Numeral
import Lexemes.Json.Quoted

namespace Lexemes.Json

open Reader

variable {α : Type}

def word : List Char → Reader Unit
  | [] => pure ()
  | x :: xs => do
    let c ← take (.unfinished .value)
    if c = x then word xs else refuse c .misspelledWord

def head : Reader Found := do
  let c ← takeNext (.unfinished .value)
  if c = '"' then
    let s ← Quoted.text
    pure (.string s)
  else if c = 'n' then
    word ['u', 'l', 'l']
    pure .null
  else if c = 't' then
    word ['r', 'u', 'e']
    pure (.boolean true)
  else if c = 'f' then
    word ['a', 'l', 's', 'e']
    pure (.boolean false)
  else if c = '[' then pure .list
  else if c = '{' then pure .object
  else if c = '-' ∨ c.isDigit then
    let n ← readNumber c
    pure (.number n)
  else refuse c .valueExpected

/-- A bracket is left where it is, but a scalar is taken. -/
def mismatch (found : Found) (expected : String) : Reader α :=
  let uncounted :=
    match found with
    | .list | .object => 1
    | _ => 0
  stop uncounted (.wrongType found expected)

def null : Reader Unit := do
  match ← head with
  | .null => pure ()
  | found => mismatch found "unit"

def boolean : Reader Bool := do
  match ← head with
  | .boolean b => pure b
  | found => mismatch found "a boolean"

def natural : Reader Nat := do
  match ← head with
  | .number (.whole n) =>
    if 0 ≤ n then pure n.toNat else fail (.wrongValue (.number (.whole n)) "usize")
  | found => mismatch found "usize"

def optionalString : Reader (Option String) := do
  match ← head with
  | .null => pure none
  | .string s => pure (some s)
  | found => mismatch found "a string"

def colon : Reader Unit := do
  let c ← takeNext (.unfinished .object)
  if c = ':' then pure () else refuse c .colonExpected

end Lexemes.Json
