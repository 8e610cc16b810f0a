namespace Lexemes

inductive Kind
  | endOfInput | illegal | lineSeparator | comment
  | identifier | integer | float | boolean | string | character
  | add | subtract | multiply | divide | modulo | exponent
  | lessThan | greaterThan | lessEqual | greaterEqual | equals | notEqual
  | leftAssign | rightAssign
  | not | and | or | nand | nor | implies | maplet
  | leftParen | rightParen | leftBracket | rightBracket | leftBrace | rightBrace
  | colon | comma | ellipsis
  | asWord | fromWord | importWord | ofWord
  deriving DecidableEq, Repr

namespace Kind

def all : List Kind :=
  [endOfInput, illegal, lineSeparator, comment,
    identifier, integer, float, boolean, string, character,
    add, subtract, multiply, divide, modulo, exponent,
    lessThan, greaterThan, lessEqual, greaterEqual, equals, notEqual,
    leftAssign, rightAssign,
    not, and, or, nand, nor, implies, maplet,
    leftParen, rightParen, leftBracket, rightBracket, leftBrace, rightBrace,
    colon, comma, ellipsis,
    asWord, fromWord, importWord, ofWord]

def name : Kind → String
  | endOfInput => "EndOfInput"
  | illegal => "Illegal"
  | lineSeparator => "LineSeparator"
  | comment => "Comment"
  | identifier => "Identifier"
  | integer => "Integer"
  | float => "Float"
  | boolean => "Boolean"
  | string => "String"
  | character => "Character"
  | add => "Add"
  | subtract => "Subtract"
  | multiply => "Multiply"
  | divide => "Divide"
  | modulo => "Modulo"
  | exponent => "Exponent"
  | lessThan => "LessThan"
  | greaterThan => "GreaterThan"
  | lessEqual => "LessEqual"
  | greaterEqual => "GreaterEqual"
  | equals => "Equals"
  | notEqual => "NotEqual"
  | leftAssign => "LeftAssign"
  | rightAssign => "RightAssign"
  | not => "Not"
  | and => "And"
  | or => "Or"
  | nand => "Nand"
  | nor => "Nor"
  | implies => "Implies"
  | maplet => "Maplet"
  | leftParen => "LeftParen"
  | rightParen => "RightParen"
  | leftBracket => "LeftBracket"
  | rightBracket => "RightBracket"
  | leftBrace => "LeftBrace"
  | rightBrace => "RightBrace"
  | colon => "Colon"
  | comma => "Comma"
  | ellipsis => "Ellipsis"
  | asWord => "As"
  | fromWord => "From"
  | importWord => "Import"
  | ofWord => "Of"

def ofName? (s : String) : Option Kind :=
  all.find? fun k ↦ k.name == s

def isLiteral : Kind → Bool
  | identifier | integer | float | boolean | string | character => true
  | _ => false

def isKeyword : Kind → Bool
  | asWord | fromWord | importWord | ofWord => true
  | _ => false

def isOperator : Kind → Bool
  | endOfInput | illegal | lineSeparator | comment => false
  | k => !k.isLiteral && !k.isKeyword

/-- How tightly an operator binds; nothing else binds at all. -/
def precedence : Kind → Nat
  | or => 1
  | and => 2
  | equals | notEqual | lessThan | greaterThan | lessEqual | greaterEqual => 3
  | add | subtract => 4
  | multiply | divide | modulo => 5
  | exponent => 6
  | not => 7
  | _ => 0

theorem ofName?_name (k : Kind) : ofName? k.name = some k := by
  cases k <;> decide +kernel

theorem name_injective {j k : Kind} (h : j.name = k.name) : j = k := by
  have hj := ofName?_name j
  rw [h, ofName?_name k] at hj
  exact (Option.some.inj hj).symm

end Kind

end Lexemes
