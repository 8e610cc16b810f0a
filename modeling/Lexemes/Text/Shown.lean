import Lexemes.Text.Blank
import Lexemes.Text.Extending
import Lexemes.Text.Unassigned

namespace Lexemes.Text

/-- Controls, formats and private characters, and the fillers that hold an empty place. -/
def unprinted : Table where
  ranges :=
    [(0x00, 0x1F), (0x7F, 0x9F), (0xAD, 0xAD), (0x600, 0x605), (0x61C, 0x61C), (0x6DD, 0x6DD),
      (0x70F, 0x70F), (0x890, 0x891), (0x8E2, 0x8E2), (0x115F, 0x1160), (0x180E, 0x180E),
      (0x200B, 0x200F), (0x202A, 0x202E), (0x2060, 0x2064), (0x2066, 0x206F), (0x3164, 0x3164),
      (0xE000, 0xF8FF), (0xFEFF, 0xFEFF), (0xFFA0, 0xFFA0), (0xFFF9, 0xFFFB), (0x110BD, 0x110BD),
      (0x110CD, 0x110CD), (0x13430, 0x1343F), (0x1BCA0, 0x1BCA3), (0x1D173, 0x1D17A),
      (0xE0001, 0xE0001), (0xE0020, 0xE007F), (0xF0000, 0xFFFFD), (0x100000, 0x10FFFD)]
  ascends := by decide

def isHidden (c : Char) : Bool :=
  c != ' ' && (isBlank c || unprinted.holds c || isExtending c || isUnassigned c)

def shownChar (c : Char) : List Char :=
  if c = '"' then ['\\', '"']
  else if c = '\\' then ['\\', '\\']
  else if c = '\n' then ['\\', 'n']
  else if c = '\r' then ['\\', 'r']
  else if c = '\t' then ['\\', 't']
  else if c.toNat = 0 then ['\\', '0']
  else if isHidden c then '\\' :: 'u' :: '{' :: Nat.toDigits 16 c.toNat ++ ['}']
  else [c]

def shown (s : String) : String :=
  String.ofList ('"' :: s.toList.flatMap shownChar ++ ['"'])

end Lexemes.Text
