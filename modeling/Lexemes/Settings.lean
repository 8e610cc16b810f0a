import Lexemes.Json.Record
import Lexemes.Json.Variant
import Lexemes.Text.Blank

namespace Lexemes

inductive DumpFormat
  | text | json
  deriving DecidableEq, Repr

namespace DumpFormat

def all : List DumpFormat :=
  [text, json]

def name : DumpFormat → String
  | text => "text"
  | json => "json"

def ofName? (s : String) : Option DumpFormat :=
  all.find? fun f ↦ f.name == s

/-- A format by its name, in letters of either case and between blanks. -/
def recognise? (s : String) : Option DumpFormat :=
  ofName? (String.ofList ((Text.trim s.toList).map Char.toLower))

def choice : Json.Choice DumpFormat :=
  ⟨all.map name, ofName?⟩

end DumpFormat

structure Settings where
  format : DumpFormat := .text
  positions : Bool := false
  skipComments : Bool := false
  strict : Bool := false
  deriving DecidableEq, Repr

namespace Settings

def overrideFormat (s : Settings) (value : String) : Settings :=
  match DumpFormat.recognise? value with
  | some format => { s with format := format }
  | none => s

structure Given where
  format : Option DumpFormat := none
  positions : Option Bool := none
  skipComments : Option Bool := none
  strict : Option Bool := none

def Given.orDefault (g : Given) : Settings :=
  let d : Settings := {}
  ⟨g.format.getD d.format, g.positions.getD d.positions, g.skipComments.getD d.skipComments,
    g.strict.getD d.strict⟩

open Json

def fields : List (RecordField Given) :=
  [⟨"format", fun g ↦ g.format.isSome, fun g ↦ do
      let format ← DumpFormat.choice.read
      pure { g with format := some format }⟩,
    ⟨"positions", fun g ↦ g.positions.isSome, fun g ↦ do
      let b ← boolean
      pure { g with positions := some b }⟩,
    ⟨"skip_comments", fun g ↦ g.skipComments.isSome, fun g ↦ do
      let b ← boolean
      pure { g with skipComments := some b }⟩,
    ⟨"strict", fun g ↦ g.strict.isSome, fun g ↦ do
      let b ← boolean
      pure { g with strict := some b }⟩]

def record : Record Given Settings where
  expected := "struct Config"
  fields := fields
  blank := {}
  short? := fun _ ↦ none
  finish := fun g ↦ .ok g.orDefault

def ofJson (text : String) : Except Fault Settings :=
  record.read.readAll text

/-- What is wrong with a text that holds no settings. -/
def complaint (text : String) : String :=
  match ofJson text with
  | .error fault => fault.message
  | .ok _ => ""

example : complaint "\x7b\n \"é\": 1,\n \"strict\": [1]\x7d" =
    "invalid type: sequence, expected a boolean at line 3 column 11" := by decide +kernel
example : complaint "\x7b\"strict\": true, \"strict\" : true\x7d" =
    "duplicate field `strict` at line 1 column 26" := by decide +kernel

end Settings

end Lexemes
