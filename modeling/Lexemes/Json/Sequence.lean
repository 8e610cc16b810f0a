import Lexemes.Json.Scalar

namespace Lexemes.Json.Sequence

open Reader

variable {α : Type}

def turn (item : Reader α) (read : List α) : Reader (Turn (List α) (List α)) := do
  let c ← takeNext (.unfinished .list)
  if c = ']' then pure (.done read.reverse)
  else if c = ',' then
    match ← peek with
    | some ']' =>
      skip
      fail .trailingComma
    | _ =>
      let a ← item
      pure (.again (a :: read))
  else refuse c .listSeparatorExpected

theorem takes_turn (item : Reader α) (read : List α) : (turn item read).Takes :=
  takes_bind (takes_takeNext _)

def items (item : Reader α) : Reader (List α) := do
  match ← peek with
  | none => fail (.unfinished .list)
  | some ']' =>
    skip
    pure []
  | some _ =>
    let a ← item
    loop (turn item) (takes_turn item) [a]

def read (item : Reader α) : Reader (List α) := do
  match ← head with
  | .list => items item
  | found => mismatch found "a sequence"

end Lexemes.Json.Sequence
