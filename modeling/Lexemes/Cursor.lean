import Lexemes.Place

namespace Lexemes

structure Cursor where
  passed : Nat
  place : Place
  ahead : List Char
  mark : Place
  /-- What was ahead at the mark. -/
  marked : List Char
  finished : Bool

namespace Cursor

def ofSource (source : String) : Cursor where
  passed := 0
  place := {}
  ahead := source.toList
  mark := {}
  marked := source.toList
  finished := false

def advance (c : Cursor) : Cursor :=
  match c.ahead with
  | [] => c
  | x :: xs => { c with passed := c.passed + 1, place := c.place.past x xs.head?, ahead := xs }

def advanceBy : Nat → Cursor → Cursor
  | 0, c => c
  | n + 1, c => advanceBy n c.advance

def advanceWhile (p : Char → Bool) (c : Cursor) : Cursor :=
  c.advanceBy (c.ahead.takeWhile p).length

def accept? (x : Char) (c : Cursor) : Option Cursor :=
  if c.ahead.head? = some x then some c.advance else none

def setMark (c : Cursor) : Cursor :=
  { c with mark := c.place, marked := c.ahead }

/-- The first characters that make up exactly `n` bytes, if some do. -/
def takeBytes? : Nat → List Char → Option (List Char)
  | 0, _ => some []
  | _ + 1, [] => none
  | n + 1, c :: cs =>
    if c.utf8Size ≤ n + 1 then (takeBytes? (n + 1 - c.utf8Size) cs).map (c :: ·) else none

def lexeme? (c : Cursor) : Option (List Char) :=
  if c.mark.offset ≤ c.place.offset then takeBytes? (c.place.offset - c.mark.offset) c.marked
  else none

theorem ahead_advance (c : Cursor) : c.advance.ahead = c.ahead.tail := by
  unfold advance
  split <;> simp_all

theorem ahead_of_accept? {x : Char} {c d : Cursor} (h : c.accept? x = some d) :
    c.ahead = x :: d.ahead := by
  unfold accept? at h
  split at h
  · next hx =>
    cases h
    obtain ⟨xs, hxs⟩ := List.head?_eq_some_iff.mp hx
    rw [ahead_advance, hxs, List.tail_cons]
  · cases h

end Cursor

end Lexemes
