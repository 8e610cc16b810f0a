import Lexemes.Text.Ranges

namespace Lexemes.Text

/-- The property White_Space. -/
def blanks : Table where
  ranges :=
    [(0x09, 0x0D), (0x20, 0x20), (0x85, 0x85), (0xA0, 0xA0), (0x1680, 0x1680), (0x2000, 0x200A),
      (0x2028, 0x2029), (0x202F, 0x202F), (0x205F, 0x205F), (0x3000, 0x3000)]
  ascends := by decide

def isBlank (c : Char) : Bool :=
  blanks.holds c

/-- No other character ends a line, whatever its width on paper. -/
def isLineBreak (c : Char) : Bool :=
  c == '\n' || c == '\r'

def isSpace (c : Char) : Bool :=
  isBlank c && !isLineBreak c

def trimStart (cs : List Char) : List Char :=
  cs.dropWhile isBlank

def trimEnd (cs : List Char) : List Char :=
  (cs.reverse.dropWhile isBlank).reverse

def trim (cs : List Char) : List Char :=
  trimEnd (trimStart cs)

theorem isBlank_of_isLineBreak {c : Char} (h : isLineBreak c = true) : isBlank c = true := by
  simp only [isLineBreak, Bool.or_eq_true, beq_iff_eq] at h
  obtain rfl | rfl := h <;> decide

end Lexemes.Text
