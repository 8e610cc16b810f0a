namespace Lexemes

structure Place where
  offset : Nat := 0
  line : Nat := 1
  column : Nat := 1
  deriving DecidableEq, Repr

namespace Place

/-- Whether the line ends behind `c`, when `next` follows it. -/
def endsLine (c : Char) (next : Option Char) : Bool :=
  c == '\n' || c == '\r' && next != some '\n'

def past (p : Place) (c : Char) (next : Option Char) : Place :=
  if endsLine c next then ⟨p.offset + c.utf8Size, p.line + 1, 1⟩
  else ⟨p.offset + c.utf8Size, p.line, p.column + 1⟩

theorem offset_past (p : Place) (c : Char) (next : Option Char) :
    (p.past c next).offset = p.offset + c.utf8Size := by
  unfold past
  split <;> rfl

end Place

end Lexemes
