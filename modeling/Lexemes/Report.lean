import Lexemes.Token

namespace Lexemes

inductive Reason
  | openString (text : String)
  | characterLiteral
  | loneDot
  | secondPoint (text : String)
  | strangeCharacter (c : Char)
  | noText
  deriving DecidableEq

namespace Reason

/-- The first character of an illegal lexeme tells them apart. -/
def ofText (s : String) : Reason :=
  match s.toList with
  | [] => noText
  | c :: _ =>
    if c = '"' then openString s
    else if c = '\'' then characterLiteral
    else if c = '.' then loneDot
    else if c.isDigit then secondPoint s
    else strangeCharacter c

def message : Reason → String
  | openString s => "Unterminated string literal " ++ s
  | characterLiteral => "Character literals are not supported"
  | loneDot => "Expected '...' but found a lone '.'"
  | secondPoint s => "Malformed number " ++ s ++ " has more than one decimal point"
  | strangeCharacter c => "Unrecognized character " ++ String.singleton c
  | noText => "Illegal token"

end Reason

structure Report where
  path : String
  message : String
  text : String
  line : Nat
  column : Nat
  deriving DecidableEq

namespace Report

def ofToken? (path : String) (t : Token) : Option Report :=
  if t.isIllegal then
    let text := t.text.getD ""
    some ⟨path, (Reason.ofText text).message, text, t.line, t.column⟩
  else none

def ofTokens (path : String) (ts : List Token) : List Report :=
  ts.filterMap (ofToken? path)

def display (r : Report) : String :=
  "LexingError: " ++ r.message ++ "\n  --> " ++ r.path ++ ":" ++ toString r.line ++ ":"
    ++ toString r.column ++ "\n"

end Report

end Lexemes
