import Lexemes.Cursor
import Lexemes.Kind.Spelling
import Lexemes.Token

namespace Lexemes.Cursor

open Text

def word (c : Cursor) : Kind × Cursor :=
  let c := c.advanceWhile Kind.continuesWord
  let kind := c.lexeme?.bind fun cs ↦ Kind.ofWord? (String.ofList cs)
  (kind.getD .identifier, c)

/-- The kind of a number too: a second point makes all of it illegal. -/
def number (c : Cursor) : Kind × Cursor :=
  let c := c.advanceWhile Kind.continuesNumber
  (Kind.ofNumber (c.lexeme?.getD []), c)

def string (c : Cursor) : Kind × Cursor :=
  let c := c.advanceWhile Kind.continuesString
  match c.accept? '"' with
  | some c => (.string, c)
  | none => (.illegal, c)

def slash (c : Cursor) : Kind × Cursor :=
  match c.accept? '/' with
  | some c => (.comment, c.advanceWhile Kind.continuesComment)
  | none => (.divide, c)

/-- Two dots are no lexeme: the first stands alone. -/
def dot (c : Cursor) : Kind × Cursor :=
  match (c.accept? '.').bind (accept? '.') with
  | some c => (.ellipsis, c)
  | none => (.illegal, c)

def operator (first : Char) (c : Cursor) : Kind × Cursor :=
  match (Kind.pairs first).findSome? fun p ↦ (c.accept? p.1).map (p.2, ·) with
  | some found => found
  | none => ((Kind.ofChar? first).getD .illegal, c)

def complete (first : Char) (c : Cursor) : Kind × Cursor :=
  if isLineBreak first then (.lineSeparator, c.advanceWhile isBlank)
  else if Kind.startsWord first then c.word
  else if first.isDigit then c.number
  else if first = '"' then c.string
  else if first = '/' then c.slash
  else if first = '.' then c.dot
  else c.operator first

def token (c : Cursor) (kind : Kind) : Token where
  kind := kind
  text :=
    match kind with
    | .lineSeparator | .endOfInput => none
    | _ => c.lexeme?.map String.ofList
  span := ⟨c.mark.offset, c.place.offset⟩
  line := c.mark.line
  column := c.mark.column

def scan (c : Cursor) : Token × Cursor :=
  let c := (c.advanceWhile isSpace).setMark
  match c.ahead with
  | [] => (c.token .endOfInput, { c with finished := true })
  | first :: _ =>
    let (kind, c) := c.advance.complete first
    (c.token kind, c)

/-- The end of the input is reported once; after that there are no more tokens. -/
def next (c : Cursor) : Option Token × Cursor :=
  if c.finished then (none, c)
  else
    let (t, c) := c.scan
    (some t, c)

def remaining (c : Cursor) : Nat :=
  if c.finished then 0 else c.ahead.length + 1

def take : Nat → Cursor → List Token × Cursor
  | 0, c => ([], c)
  | n + 1, c =>
    match c.next with
    | (none, c) => ([], c)
    | (some t, c) =>
      let (ts, c) := take n c
      (t :: ts, c)

def Reaches (c d : Cursor) : Prop :=
  d.ahead.length ≤ c.ahead.length ∧ d.finished = c.finished

theorem Reaches.rfl {c : Cursor} : c.Reaches c :=
  ⟨Nat.le_refl _, Eq.refl _⟩

theorem Reaches.trans {a b c : Cursor} (h : a.Reaches b) (k : b.Reaches c) : a.Reaches c :=
  ⟨Nat.le_trans k.1 h.1, k.2.trans h.2⟩

theorem reaches_advance (c : Cursor) : c.Reaches c.advance := by
  refine ⟨by simp [ahead_advance], ?_⟩
  unfold advance
  split <;> rfl

theorem reaches_advanceBy (n : Nat) (c : Cursor) : c.Reaches (c.advanceBy n) := by
  induction n generalizing c with
  | zero => exact .rfl
  | succ n ih => exact (reaches_advance c).trans (ih c.advance)

theorem reaches_advanceWhile (p : Char → Bool) (c : Cursor) : c.Reaches (c.advanceWhile p) :=
  reaches_advanceBy _ c

theorem reaches_of_accept? {x : Char} {c d : Cursor} (h : c.accept? x = some d) : c.Reaches d := by
  unfold accept? at h
  split at h
  · cases h
    exact reaches_advance c
  · cases h

theorem reaches_string (c : Cursor) : c.Reaches c.string.2 := by
  have hw := reaches_advanceWhile Kind.continuesString c
  unfold string
  dsimp only
  split
  · next d hd => exact hw.trans (reaches_of_accept? hd)
  · exact hw

theorem reaches_slash (c : Cursor) : c.Reaches c.slash.2 := by
  unfold slash
  split
  · next d hd => exact (reaches_of_accept? hd).trans (reaches_advanceWhile _ d)
  · exact .rfl

theorem reaches_dot (c : Cursor) : c.Reaches c.dot.2 := by
  unfold dot
  split
  · next d hd =>
    obtain ⟨b, hb, hd⟩ := Option.bind_eq_some_iff.mp hd
    exact (reaches_of_accept? hb).trans (reaches_of_accept? hd)
  · exact .rfl

theorem reaches_operator (first : Char) (c : Cursor) : c.Reaches (c.operator first).2 := by
  unfold operator
  split
  · next d hd =>
    obtain ⟨p, -, hp⟩ := List.exists_of_findSome?_eq_some hd
    obtain ⟨e, he, rfl⟩ := Option.map_eq_some_iff.mp hp
    exact reaches_of_accept? he
  · exact .rfl

theorem reaches_complete (first : Char) (c : Cursor) : c.Reaches (c.complete first).2 := by
  unfold complete
  split
  · exact reaches_advanceWhile _ c
  split
  · exact reaches_advanceWhile _ c
  split
  · exact reaches_advanceWhile _ c
  split
  · exact reaches_string c
  split
  · exact reaches_slash c
  split
  · exact reaches_dot c
  · exact reaches_operator first c

theorem remaining_next {c d : Cursor} {t : Token} (h : c.next = (some t, d)) :
    d.remaining < c.remaining := by
  unfold next at h
  split at h
  · cases h
  · next hc =>
    have hs := reaches_advanceWhile isSpace c
    simp only [scan, Prod.mk.injEq, Option.some.injEq] at h
    obtain ⟨-, rfl⟩ := h
    split
    · simp [remaining, hc]
    · next first rest hr =>
      have hm : (c.advanceWhile isSpace).setMark.ahead.length ≤ c.ahead.length := hs.1
      have ha := reaches_complete first (c.advanceWhile isSpace).setMark.advance
      have hl := ha.1
      rw [ahead_advance, hr, List.tail_cons] at hl
      rw [hr, List.length_cons] at hm
      simp only [remaining, hc]
      split
      · simp
      · simp only [Bool.false_eq_true, ↓reduceIte]
        omega

def tokens (c : Cursor) : List Token :=
  match h : c.next with
  | (none, _) => []
  | (some t, d) =>
    have := remaining_next h
    t :: d.tokens
termination_by c.remaining

end Lexemes.Cursor

namespace Lexemes

def tokens (source : String) : List Token :=
  (Cursor.ofSource source).tokens

end Lexemes
