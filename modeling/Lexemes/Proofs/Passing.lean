import Lexemes.Cursor
import Lexemes.Text.Blank
import Mathlib.Data.String.Basic

namespace Lexemes

open String Text

section Runs

variable {p : Char → Bool} {run rest : List Char}

theorem exists_run (p : Char → Bool) (cs : List Char) : ∃ run rest, cs = run ++ rest ∧
    (∀ x ∈ run, p x) ∧ ∀ x ∈ rest.head?, p x = false := by
  induction cs with
  | nil => exact ⟨[], [], rfl, by simp, by simp⟩
  | cons c cs ih =>
    by_cases hc : p c
    · obtain ⟨run, rest, rfl, hrun, hrest⟩ := ih
      exact ⟨c :: run, rest, rfl, by simpa [hc] using hrun, hrest⟩
    · exact ⟨[], c :: cs, rfl, by simp, by simpa using hc⟩

theorem takeWhile_run (hrun : ∀ x ∈ run, p x) (hrest : ∀ x ∈ rest.head?, p x = false) :
    (run ++ rest).takeWhile p = run := by
  rw [List.takeWhile_append_of_pos hrun]
  cases rest with
  | nil => simp
  | cons x rest => simp [hrest x rfl]

theorem dropWhile_run (hrun : ∀ x ∈ run, p x) (hrest : ∀ x ∈ rest.head?, p x = false) :
    (run ++ rest).dropWhile p = rest := by
  rw [List.dropWhile_append_of_pos hrun]
  cases rest with
  | nil => rfl
  | cons x rest => simp [hrest x rfl]

end Runs

namespace Place

/-- The place behind `cs`, when `rest` follows. -/
def through : Place → List Char → List Char → Place
  | p, [], _ => p
  | p, c :: cs, rest => through (p.past c (cs ++ rest).head?) cs rest

variable (p : Place) (as bs cs rest : List Char)

@[simp] theorem through_nil : p.through [] rest = p := rfl

theorem through_append : p.through (as ++ bs) rest = (p.through as (bs ++ rest)).through bs rest := by
  induction as generalizing p with
  | nil => rfl
  | cons a as ih => simp only [List.cons_append, through, ih, List.append_assoc]

theorem offset_through : (p.through cs rest).offset = p.offset + utf8Len cs := by
  induction cs generalizing p with
  | nil => rfl
  | cons c cs ih =>
    simp only [through, ih, offset_past, utf8Len_cons]
    omega

theorem offset_through_append : (p.through (as ++ bs) rest).offset =
    (p.through as (bs ++ rest)).offset + utf8Len bs := by
  rw [through_append, offset_through]

theorem through_of_unbroken (h : ∀ c ∈ cs, isLineBreak c = false) :
    p.through cs rest = ⟨p.offset + utf8Len cs, p.line, p.column + cs.length⟩ := by
  induction cs generalizing p with
  | nil => rfl
  | cons c cs ih =>
    have hc : ¬ endsLine c (cs ++ rest).head? := by
      have := h c (by simp)
      simp_all [endsLine, isLineBreak]
    rw [through, ih _ fun x hx ↦ h x (by simp [hx]), past, if_neg hc]
    simp only [utf8Len_cons, List.length_cons, mk.injEq, true_and]
    exact ⟨by omega, by omega⟩

end Place

namespace Cursor

def after (c : Cursor) (cs rest : List Char) : Cursor :=
  { c with passed := c.passed + cs.length, place := c.place.through cs rest, ahead := rest }

variable {c : Cursor} {p : Char → Bool} {x : Char} {cs rest : List Char}

theorem after_nil (h : c.ahead = rest) : c.after [] rest = c := by
  simp [after, ← h]

theorem after_after (as bs : List Char) :
    (c.after as (bs ++ rest)).after bs rest = c.after (as ++ bs) rest := by
  simp [after, Place.through_append, Nat.add_assoc]

theorem advance_eq (h : c.ahead = x :: rest) : c.advance = c.after [x] rest := by
  simp [advance, h, after, Place.through]

theorem advanceBy_eq (h : c.ahead = cs ++ rest) : c.advanceBy cs.length = c.after cs rest := by
  induction cs generalizing c with
  | nil => exact (after_nil h).symm
  | cons x cs ih =>
    have hx : c.advance = c.after [x] (cs ++ rest) := advance_eq h
    rw [List.length_cons, advanceBy, hx, ih rfl]
    exact after_after [x] cs

theorem advanceWhile_eq (h : c.ahead = cs ++ rest) (hcs : ∀ x ∈ cs, p x)
    (hrest : ∀ x ∈ rest.head?, p x = false) : c.advanceWhile p = c.after cs rest := by
  rw [advanceWhile, h, takeWhile_run hcs hrest, advanceBy_eq h]

theorem accept?_eq_some (h : c.ahead = x :: rest) : c.accept? x = some (c.after [x] rest) := by
  simp [accept?, h, advance_eq h]

theorem accept?_eq_none (h : x ∉ c.ahead.head?) : c.accept? x = none :=
  if_neg h

theorem eq_of_accept? {d : Cursor} (h : c.accept? x = some d) :
    ∃ rest, c.ahead = x :: rest ∧ d = c.after [x] rest := by
  have hx := ahead_of_accept? h
  rw [accept?_eq_some hx] at h
  exact ⟨_, hx, (Option.some.inj h).symm⟩

theorem takeBytes?_append : takeBytes? (utf8Len cs) (cs ++ rest) = some cs := by
  induction cs with
  | nil => simp [takeBytes?]
  | cons x cs ih =>
    have hx := x.utf8Size_pos
    obtain ⟨n, hn⟩ : ∃ n, utf8Len cs + x.utf8Size = n + 1 := ⟨_, (Nat.succ_pred (by omega)).symm⟩
    rw [List.cons_append, utf8Len_cons, hn, takeBytes?, if_pos (by omega), ← hn,
      Nat.add_sub_cancel, ih]
    rfl

/-- From the mark to the place the cursor has passed `s`. -/
structure Spans (c : Cursor) (s : List Char) : Prop where
  marked : c.marked = s ++ c.ahead
  offset : c.place.offset = c.mark.offset + utf8Len s

variable {s : List Char}

theorem spans_setMark : c.setMark.Spans [] := ⟨rfl, rfl⟩

theorem Spans.after (h : c.Spans s) (hc : c.ahead = cs ++ rest) : (c.after cs rest).Spans (s ++ cs) where
  marked := by simp [Cursor.after, h.marked, hc]
  offset := by
    simp only [Cursor.after, Place.offset_through, h.offset, utf8Len_append]
    omega

theorem Spans.lexeme? (h : c.Spans s) : c.lexeme? = some s := by
  rw [Cursor.lexeme?, h.offset, if_pos (by omega), Nat.add_sub_cancel_left, h.marked,
    takeBytes?_append]

end Cursor

end Lexemes
