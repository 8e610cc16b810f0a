import Lexemes.Json.Number
import Lexemes.Text.Shown

namespace Lexemes.Json

inductive Unfinished
  | value | string | list | object
  deriving DecidableEq

inductive Found
  | null
  | boolean (b : Bool)
  | number (n : Number)
  | string (s : String)
  | list
  | object
  deriving DecidableEq

inductive Flaw
  | unfinished (what : Unfinished)
  | valueExpected
  | misspelledWord
  | invalidNumber
  | numberOutOfRange
  | controlCharacter
  | invalidEscape
  | brokenSurrogatePair
  | loneSurrogate
  | keyExpected
  | colonExpected
  | listSeparatorExpected
  | objectSeparatorExpected
  | trailingComma
  | trailingCharacters
  | wrongType (found : Found) (expected : String)
  | wrongValue (found : Found) (expected : String)
  | wrongLength (length : Nat) (expected : String)
  | unknownVariant (given : String) (known : List String)
  | missingField (name : String)
  | repeatedField (name : String)
  deriving DecidableEq

/-- The three ways to be wrong: to end too early, not to be JSON, to be other JSON than expected. -/
inductive Category
  | unfinished | malformed | unsuitable
  deriving DecidableEq

def Unfinished.noun : Unfinished → String
  | value => "a value"
  | string => "a string"
  | list => "a list"
  | object => "an object"

def Found.describe : Found → String
  | null => "null"
  | boolean b => "boolean `" ++ toString b ++ "`"
  | number (.whole n) => "integer `" ++ (Number.whole n).text ++ "`"
  | number n => "floating point `" ++ n.text ++ "`"
  | string s => "string " ++ Text.shown s
  | list => "sequence"
  | object => "map"

def ticked (s : String) : String :=
  "`" ++ s ++ "`"

def alternatives : List String → String
  | [] => "there are no variants"
  | [a] => ticked a
  | [a, b] => ticked a ++ " or " ++ ticked b
  | names => "one of " ++ String.intercalate ", " (names.map ticked)

namespace Flaw

def category : Flaw → Category
  | unfinished _ => .unfinished
  | wrongType .. | wrongValue .. | wrongLength .. | unknownVariant .. | missingField _
  | repeatedField _ => .unsuitable
  | _ => .malformed

def message : Flaw → String
  | unfinished what => "EOF while parsing " ++ what.noun
  | valueExpected => "expected value"
  | misspelledWord => "expected ident"
  | invalidNumber => "invalid number"
  | numberOutOfRange => "number out of range"
  | controlCharacter => "control character (\\u0000-\\u001F) found while parsing a string"
  | invalidEscape => "invalid escape"
  | brokenSurrogatePair => "unexpected end of hex escape"
  | loneSurrogate => "lone leading surrogate in hex escape"
  | keyExpected => "key must be a string"
  | colonExpected => "expected `:`"
  | listSeparatorExpected => "expected `,` or `]`"
  | objectSeparatorExpected => "expected `,` or `\x7d`"
  | trailingComma => "trailing comma"
  | trailingCharacters => "trailing characters"
  | wrongType found expected => "invalid type: " ++ found.describe ++ ", expected " ++ expected
  | wrongValue found expected => "invalid value: " ++ found.describe ++ ", expected " ++ expected
  | wrongLength length expected =>
    "invalid length " ++ toString length ++ ", expected " ++ expected
  | unknownVariant given known =>
    "unknown variant " ++ ticked given ++ ", expected " ++ alternatives known
  | missingField name => "missing field " ++ ticked name
  | repeatedField name => "duplicate field " ++ ticked name

end Flaw

structure Position where
  line : Nat
  column : Nat
  deriving DecidableEq

namespace Position

def past (p : Position) (byte : UInt8) : Position :=
  if byte = '\n'.toUInt8 then ⟨p.line + 1, 0⟩ else ⟨p.line, p.column + 1⟩

/-- Lines count from one, and columns are bytes of the last line. -/
def behind (front : List UInt8) : Position :=
  front.foldl past ⟨1, 0⟩

def text (p : Position) : String :=
  " at line " ++ toString p.line ++ " column " ++ toString p.column

end Position

/-- A flaw of a text has a position there, the flaw of a value has none. -/
structure Fault where
  flaw : Flaw
  position : Option Position
  deriving DecidableEq

namespace Fault

def category (e : Fault) : Category :=
  e.flaw.category

def message (e : Fault) : String :=
  e.flaw.message ++ (e.position.map Position.text).getD ""

end Fault

end Lexemes.Json
