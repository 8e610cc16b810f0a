import Lexemes.Kind

namespace Lexemes

/-- The bytes from `start` up to `stop`. -/
structure Span where
  start : Nat
  stop : Nat
  deriving DecidableEq, Repr

namespace Span

def length (s : Span) : Nat :=
  s.stop - s.start

def isEmpty (s : Span) : Bool :=
  s.start == s.stop

end Span

/-- Line separators and the end of the input carry no text when they come from a source. -/
structure Token where
  kind : Kind
  text : Option String
  span : Span
  line : Nat
  column : Nat
  deriving DecidableEq, Repr

namespace Token

def isIllegal (t : Token) : Bool :=
  t.kind == .illegal

def isEnd (t : Token) : Bool :=
  t.kind == .endOfInput

end Token

end Lexemes
