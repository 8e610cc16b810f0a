import Lexemes.Kind
import Lexemes.Text.Blank

namespace Lexemes.Kind

def startsWord (c : Char) : Bool :=
  c == '_' || c.isAlpha

def continuesWord (c : Char) : Bool :=
  c == '_' || c.isAlphanum

def continuesNumber (c : Char) : Bool :=
  c == '_' || c == '.' || c.isDigit

def continuesString (c : Char) : Bool :=
  c != '"' && !Text.isLineBreak c

def continuesComment (c : Char) : Bool :=
  !Text.isLineBreak c

def ofWord? : String → Option Kind
  | "as" => some asWord
  | "from" => some fromWord
  | "import" => some importWord
  | "of" => some ofWord
  | "True" | "False" => some boolean
  | "Infinity" | "NaN" => some float
  | _ => none

/-- A number has one decimal point at most. -/
def ofNumber (cs : List Char) : Kind :=
  match cs.count '.' with
  | 0 => integer
  | 1 => float
  | _ => illegal

def ofChar? : Char → Option Kind
  | '+' => some add
  | '-' => some subtract
  | '*' => some multiply
  | '/' => some divide
  | '%' => some modulo
  | '^' => some exponent
  | '<' => some lessThan
  | '>' => some greaterThan
  | '=' => some equals
  | '!' => some not
  | '&' => some and
  | '|' => some or
  | '(' => some leftParen
  | ')' => some rightParen
  | '[' => some leftBracket
  | ']' => some rightBracket
  | '{' => some leftBrace
  | '}' => some rightBrace
  | ':' => some colon
  | ',' => some comma
  | _ => none

def pairs : Char → List (Char × Kind)
  | ':' => [('=', leftAssign)]
  | '=' => [(':', rightAssign), ('>', implies)]
  | '!' => [('=', notEqual), ('&', nand), ('|', nor)]
  | '<' => [('=', lessEqual)]
  | '>' => [('=', greaterEqual)]
  | '-' => [('>', maplet)]
  | _ => []

end Lexemes.Kind
