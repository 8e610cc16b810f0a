import Lexemes.Json.Record
import Lexemes.Json.Sequence
import Lexemes.Json.Value
import Lexemes.Json.Variant
import Lexemes.Token

namespace Lexemes

open Json

namespace Kind

def choice : Choice Kind :=
  ⟨all.map name, ofName?⟩

def ofValue : Value → Except Flaw Kind
  | .string s => choice.pick s
  | .object [(s, v)] =>
    match choice.pick s, v with
    | .ok k, .null => .ok k
    | .ok _, v => .error (.wrongType v.head "unit")
    | .error e, _ => .error e
  | .object _ => .error (.wrongValue .object "map with a single key")
  | v => .error (.wrongType v.head "string or map")

end Kind

namespace Span

def toValue (s : Span) : Value :=
  .object [("start", .natural s.start), ("end", .natural s.stop)]

structure Given where
  start : Option Nat := none
  stop : Option Nat := none

def fields : List (RecordField Given) :=
  [⟨"start", fun g ↦ g.start.isSome, fun g ↦ do
      let n ← natural
      pure { g with start := some n }⟩,
    ⟨"end", fun g ↦ g.stop.isSome, fun g ↦ do
      let n ← natural
      pure { g with stop := some n }⟩]

def Given.finish : Given → Except Flaw Span
  | ⟨some start, some stop⟩ => .ok ⟨start, stop⟩
  | ⟨none, _⟩ => .error (.missingField "start")
  | ⟨_, none⟩ => .error (.missingField "end")

def record : Record Given Span where
  expected := "struct Span"
  fields := fields
  blank := {}
  short? := fun n ↦ some (.wrongLength n "struct Span with 2 elements")
  finish := Given.finish

end Span

namespace Token

def toValue (t : Token) : Value :=
  .object [("kind", .string t.kind.name), ("text", (t.text.map Value.string).getD .null),
    ("span", t.span.toValue), ("line", .natural t.line), ("column", .natural t.column)]

/-- The text may be given as null, so it is known to be given apart from its value. -/
structure Given where
  kind : Option Kind := none
  text : Option (Option String) := none
  span : Option Span := none
  line : Option Nat := none
  column : Option Nat := none

def fields : List (RecordField Given) :=
  [⟨"kind", fun g ↦ g.kind.isSome, fun g ↦ do
      let kind ← Kind.choice.read
      pure { g with kind := some kind }⟩,
    ⟨"text", fun g ↦ g.text.isSome, fun g ↦ do
      let text ← optionalString
      pure { g with text := some text }⟩,
    ⟨"span", fun g ↦ g.span.isSome, fun g ↦ do
      let span ← Span.record.read
      pure { g with span := some span }⟩,
    ⟨"line", fun g ↦ g.line.isSome, fun g ↦ do
      let n ← natural
      pure { g with line := some n }⟩,
    ⟨"column", fun g ↦ g.column.isSome, fun g ↦ do
      let n ← natural
      pure { g with column := some n }⟩]

def Given.finish (g : Given) : Except Flaw Token :=
  match g.kind, g.span, g.line, g.column with
  | some kind, some span, some line, some column => .ok ⟨kind, g.text.join, span, line, column⟩
  | none, _, _, _ => .error (.missingField "kind")
  | _, none, _, _ => .error (.missingField "span")
  | _, _, none, _ => .error (.missingField "line")
  | _, _, _, none => .error (.missingField "column")

def record : Record Given Token where
  expected := "struct Token"
  fields := fields
  blank := {}
  short? := fun n ↦ some (.wrongLength n "struct Token with 5 elements")
  finish := Given.finish

def ofJson (text : String) : Except Fault (List Token) :=
  (Sequence.read record.read).readAll text

end Token

end Lexemes
