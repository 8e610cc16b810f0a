import Lexemes.Settings
import Lexemes.Token.Json

namespace Lexemes

namespace Token

def plainLine (t : Token) : List Char :=
  match t.text with
  | some s => t.kind.name.toList ++ ' ' :: s.toList
  | none => t.kind.name.toList

/-- Columns are padded up to their width; one that is too wide keeps its characters. -/
def padStart (width : Nat) (cs : List Char) : List Char :=
  List.replicate (width - cs.length) ' ' ++ cs

def padEnd (width : Nat) (cs : List Char) : List Char :=
  cs ++ List.replicate (width - cs.length) ' '

def positionLine (t : Token) : List Char :=
  Text.trimEnd (padStart 4 (toString t.line).toList ++ ':' :: padEnd 5 (toString t.column).toList
    ++ padEnd 17 t.kind.name.toList ++ (t.text.getD "").toList)

end Token

namespace Settings

def shows (s : Settings) (t : Token) : Bool :=
  !(s.skipComments && t.kind == .comment)

def line (s : Settings) (t : Token) : List Char :=
  if s.positions then t.positionLine else t.plainLine

end Settings

def dump (s : Settings) (ts : List Token) : String :=
  let shown := ts.filter s.shows
  match s.format with
  | .text => String.ofList (shown.flatMap fun t ↦ s.line t ++ ['\n'])
  | .json => (Json.Value.list (shown.map Token.toValue)).pretty ++ "\n"

end Lexemes
