import Lexemes.Json.Scalar

namespace Lexemes.Json

open Reader

variable {α : Type}

structure Choice (α : Type) where
  names : List String
  ofName? : String → Option α

namespace Choice

def pick (c : Choice α) (name : String) : Except Flaw α :=
  match c.ofName? name with
  | some a => .ok a
  | none => .error (.unknownVariant name c.names)

/-- What begins no key is wrong here as it is in a record, but a name has to be there. -/
def keyed (c : Choice α) : Reader α := do
  let first ← takeNext (.unfinished .object)
  if first = '"' then
    let s ← Quoted.text
    let a ← ofExcept (c.pick s)
    colon
    null
    let close ← takeNext (.unfinished .object)
    if close = '}' then pure a else stop close.utf8Size .valueExpected
  else if first = '}' then refuse first .valueExpected
  else refuse first .keyExpected

def read (c : Choice α) : Reader α := do
  let first ← takeNext (.unfinished .value)
  if first = '"' then
    let s ← Quoted.text
    ofExcept (c.pick s)
  else if first = '{' then c.keyed
  else refuse first .valueExpected

end Choice

end Lexemes.Json
