import Lexemes.Json.Quoted

namespace Lexemes.Json

inductive Value
  | null
  | boolean (b : Bool)
  | number (n : Number)
  | string (s : String)
  | list (items : List Value)
  | object (fields : List (String × Value))

namespace Value

def natural (n : Nat) : Value :=
  number (.whole n)

def head : Value → Found
  | null => .null
  | boolean b => .boolean b
  | number n => .number n
  | string s => .string s
  | list _ => .list
  | object _ => .object

def newLine (depth : Nat) : List Char :=
  '\n' :: List.replicate (2 * depth) ' '

mutual

/-- A value inside of `depth` brackets. Each part of a list or an object has a line of its own, an
empty one has no lines. -/
def form (depth : Nat) : Value → List Char
  | null => "null".toList
  | boolean b => (toString b).toList
  | number n => n.text.toList
  | string s => Quoted.encode s.toList
  | list [] => ['[', ']']
  | list (v :: vs) =>
    '[' :: newLine (depth + 1) ++ form (depth + 1) v ++ moreItems (depth + 1) vs ++ newLine depth
      ++ [']']
  | object [] => ['{', '}']
  | object (f :: fs) =>
    '{' :: newLine (depth + 1) ++ fieldForm (depth + 1) f ++ moreFields (depth + 1) fs
      ++ newLine depth ++ ['}']

def fieldForm (depth : Nat) : String × Value → List Char
  | (name, v) => Quoted.encode name.toList ++ ':' :: ' ' :: form depth v

def moreItems (depth : Nat) : List Value → List Char
  | [] => []
  | v :: vs => ',' :: newLine depth ++ form depth v ++ moreItems depth vs

def moreFields (depth : Nat) : List (String × Value) → List Char
  | [] => []
  | f :: fs => ',' :: newLine depth ++ fieldForm depth f ++ moreFields depth fs

end

def pretty (v : Value) : String :=
  String.ofList (v.form 0)

end Value

end Lexemes.Json
