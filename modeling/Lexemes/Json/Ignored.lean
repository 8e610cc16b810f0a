import Lexemes.Json.Scalar

namespace Lexemes.Json.Ignored

open Reader

inductive Bracket
  | list | object
  deriving DecidableEq

namespace Bracket

def closer : Bracket → Char
  | list => ']'
  | object => '}'

def unfinished : Bracket → Flaw
  | list => .unfinished .list
  | object => .unfinished .object

def separatorExpected : Bracket → Flaw
  | list => .listSeparatorExpected
  | object => .objectSeparatorExpected

end Bracket

/-- What has to come next, inside of which brackets, the innermost first. -/
inductive Stage
  | value (enclosing : List Bracket)
  | separator (innermost : Bracket) (enclosing : List Bracket)

def settle : List Bracket → Turn Stage Unit
  | [] => .done ()
  | b :: bs => .again (.separator b bs)

def key : Reader Unit := do
  let c ← takeNext (.unfinished .object)
  if c = '"' then
    Quoted.ignored
    colon
  else refuse c .keyExpected

def enter (b : Bracket) (enclosing : List Bracket) : Reader (Turn Stage Unit) :=
  match b with
  | .list => pure (.again (.value (.list :: enclosing)))
  | .object => do
    key
    pure (.again (.value (.object :: enclosing)))

def opened (b : Bracket) (enclosing : List Bracket) : Reader (Turn Stage Unit) := do
  match ← peek with
  | none => fail b.unfinished
  | some c =>
    if c = b.closer then
      skip
      pure (settle enclosing)
    else enter b enclosing

def scalar (first : Char) : Reader Unit :=
  if first = '"' then Quoted.ignored
  else if first = 'n' then word ['u', 'l', 'l']
  else if first = 't' then word ['r', 'u', 'e']
  else if first = 'f' then word ['a', 'l', 's', 'e']
  else if first = '-' ∨ first.isDigit then do
    let _ ← Numeral.read .invalidNumber first
    pure ()
  else refuse first .valueExpected

def value (enclosing : List Bracket) : Reader (Turn Stage Unit) := do
  let c ← takeNext (.unfinished .value)
  if c = '[' then opened .list enclosing
  else if c = '{' then opened .object enclosing
  else
    scalar c
    pure (settle enclosing)

def separator (b : Bracket) (enclosing : List Bracket) : Reader (Turn Stage Unit) := do
  let c ← takeNext b.unfinished
  if c = b.closer then pure (settle enclosing)
  else if c = ',' then enter b enclosing
  else refuse c b.separatorExpected

def turn : Stage → Reader (Turn Stage Unit)
  | .value enclosing => value enclosing
  | .separator b enclosing => separator b enclosing

theorem takes_turn (s : Stage) : (turn s).Takes := by
  cases s with
  | value => exact takes_bind (takes_takeNext _)
  | separator => exact takes_bind (takes_takeNext _)

end Ignored

def ignored : Reader Unit :=
  Reader.loop Ignored.turn Ignored.takes_turn (.value [])

end Lexemes.Json
