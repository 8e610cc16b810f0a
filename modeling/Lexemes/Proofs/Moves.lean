import Lexemes.Proofs.Lossless
import Lexemes.Proofs.Places
import Mathlib.Logic.Relation

namespace Lexemes

open String Relation

structure Place.Follows (p : Place) (front : List Char) : Prop where
  offset : p.offset = utf8Len front
  counted : p.Counted
  sum_le : p.line + p.column ≤ front.length + 2

namespace Place.Follows

variable {p : Place} {front cs rest : List Char} {c : Char}

theorem start : ({} : Place).Follows [] := ⟨rfl, counted_start, le_rfl⟩

theorem past (h : p.Follows front) (next : Option Char) :
    (p.past c next).Follows (front ++ [c]) where
  offset := by rw [offset_past, h.offset, utf8Len_append, utf8Len_cons, utf8Len_nil, Nat.zero_add]
  counted := h.counted.past next
  sum_le := by
    have hsum := h.sum_le
    have hcolumn := h.counted.2
    rw [List.length_append, List.length_singleton]
    unfold Place.past
    split <;> dsimp only <;> omega

theorem through (h : p.Follows front) : (p.through cs rest).Follows (front ++ cs) := by
  induction cs generalizing p front with
  | nil => rwa [Place.through_nil, List.append_nil]
  | cons c cs ih =>
    have hstep : (p.through (c :: cs) rest).Follows ((front ++ [c]) ++ cs) := ih (h.past _)
    rwa [List.append_assoc] at hstep

end Place.Follows

theorem length_le_utf8Len (cs : List Char) : cs.length ≤ utf8Len cs := by
  induction cs with
  | nil => exact Nat.zero_le _
  | cons c cs ih =>
    have hc := c.utf8Size_pos
    rw [List.length_cons, utf8Len_cons]
    omega

namespace Cursor

/-- The ways to move a cursor. A scan moves it in these ways too, and it alone sets the mark. -/
inductive Step : Cursor → Cursor → Prop
  | advance (c : Cursor) : Step c c.advance
  | accept (c : Cursor) (x : Char) : Step c ((c.accept? x).getD c)
  | advanceWhile (c : Cursor) (p : Char → Bool) : Step c (c.advanceWhile p)
  | setMark (c : Cursor) : Step c c.setMark
  | next (c : Cursor) : Step c c.next.2

def Reachable (source : String) (c : Cursor) : Prop :=
  ReflTransGen Step (ofSource source) c

structure Onward (c d : Cursor) : Prop where
  passed : c.passed ≤ d.passed
  offset : c.place.offset ≤ d.place.offset
  mark : c.mark.offset ≤ d.mark.offset

/-- All that the cursor keeps goes with the characters it has passed. -/
structure InStep (source : String) (c : Cursor) : Prop where
  passed_le : c.passed ≤ source.length
  ahead : c.ahead = source.toList.drop c.passed
  offset : c.place.offset = utf8Len (source.toList.take c.passed)
  boundary : Pos.Raw.IsValid source ⟨c.place.offset⟩ ∧ c.place.offset ≤ source.utf8ByteSize
  mark : Pos.Raw.IsValid source ⟨c.mark.offset⟩ ∧ c.mark.offset ≤ c.place.offset
  counted : c.place.Counted ∧ c.place.line + c.place.column ≤ c.passed + 2
  markCounted : c.mark.Counted ∧ c.mark.line + c.mark.column ≤ c.passed + 2
  lexeme : ∃ s, c.lexeme? = some s ∧ ofList s = between source c.mark.offset c.place.offset

/-- All that is counted, and the index one further, where a third dot is looked for. -/
def counters (c : Cursor) : List Nat :=
  [c.passed, c.passed + 1, c.place.offset, c.place.line, c.place.column, c.mark.offset, c.mark.line,
    c.mark.column]

/-- The source is `front` up to the mark, from there to the cursor `s`, and then what is ahead. -/
structure Splits (source : String) (front s : List Char) (c : Cursor) : Prop where
  text : source.toList = front ++ (s ++ c.ahead)
  passed : c.passed = (front ++ s).length
  marked : c.marked = s ++ c.ahead
  mark : c.mark.Follows front
  place : c.place.Follows (front ++ s)

variable {source : String} {c d : Cursor} {front s cs rest : List Char}

theorem splits_ofSource (source : String) : Splits source [] [] (ofSource source) :=
  ⟨rfl, rfl, rfl, .start, .start⟩

theorem Splits.after (h : Splits source front s c) (hc : c.ahead = cs ++ rest) :
    Splits source front (s ++ cs) (c.after cs rest) where
  text := by rw [h.text, hc, List.append_assoc]; rfl
  passed := by
    rw [← List.append_assoc, List.length_append, ← h.passed]
    rfl
  marked := by
    rw [List.append_assoc]
    exact h.marked.trans (congrArg _ hc)
  mark := h.mark
  place := by
    rw [← List.append_assoc]
    exact h.place.through

theorem Splits.setMark (h : Splits source front s c) : Splits source (front ++ s) [] c.setMark where
  text := by rw [h.text, List.append_assoc]; rfl
  passed := by rw [List.append_nil]; exact h.passed
  marked := rfl
  mark := h.place
  place := by rw [List.append_nil]; exact h.place

theorem Splits.spans (h : Splits source front s c) : c.Spans s where
  marked := h.marked
  offset := by rw [h.place.offset, h.mark.offset, utf8Len_append]

theorem Splits.standsFor (h : Splits source front s c) (k : Kind) :
    (c.token k).StandsFor source front s := by
  rw [token_eq h.spans]
  exact standsFor_ofLexeme h.text h.mark.offset

theorem Splits.inStep (h : Splits source front s c) : InStep source c := by
  have hall : source.toList = (front ++ s) ++ c.ahead := by rw [h.text, List.append_assoc]
  have htake : source.toList.take c.passed = front ++ s := by rw [hall, h.passed, List.take_left]
  have hdrop : source.toList.drop c.passed = c.ahead := by rw [hall, h.passed, List.drop_left]
  have hspans := h.spans.offset
  have hlength : source.length = c.passed + c.ahead.length := by
    rw [← length_toList, hall, List.length_append, h.passed]
  constructor
  case passed_le => omega
  case ahead => exact hdrop.symm
  case offset => rw [htake, h.place.offset]
  case boundary =>
    rw [h.place.offset]
    exact ⟨isValid_utf8Len hall, utf8Len_le hall⟩
  case mark =>
    refine ⟨?_, by omega⟩
    rw [h.mark.offset]
    exact isValid_utf8Len h.text
  case counted =>
    refine ⟨h.place.counted, ?_⟩
    rw [h.passed]
    exact h.place.sum_le
  case markCounted =>
    have hsum := h.mark.sum_le
    have hpassed := h.passed
    rw [List.length_append] at hpassed
    exact ⟨h.mark.counted, by omega⟩
  case lexeme =>
    refine ⟨s, h.spans.lexeme?, ?_⟩
    rw [hspans, h.mark.offset]
    exact (between_eq h.text).symm

inductive Move : Cursor → Cursor → Prop
  | pass {c : Cursor} {cs rest : List Char} (h : c.ahead = cs ++ rest) : Move c (c.after cs rest)
  | setMark (c : Cursor) : Move c c.setMark
  | finish (c : Cursor) : Move c { c with finished := true }

theorem moves_next (c : Cursor) : ReflTransGen Move c c.next.2 := by
  cases hc : c.finished with
  | true =>
    rw [next_of_finished hc]
  | false =>
    generalize hcs : c.ahead = cs
    induction cs using munch_induction with
    | spaces cs h =>
      have hspaces : ∀ x ∈ c.ahead, Text.isSpace x := hcs ▸ h
      rw [next_of_scan hc (scan_spaces hspaces)]
      have hpass : Move c (c.after c.ahead []) := .pass (List.append_nil _).symm
      exact ((ReflTransGen.single hpass).tail (.setMark _)).tail (.finish _)
    | lexeme gap k s rest hgap hs _ =>
      rw [next_of_scan hc (scan_lexeme hcs hgap hs)]
      have hpass : Move c (c.after gap (s ++ rest)) := .pass hcs
      exact ((ReflTransGen.single hpass).tail (.setMark _)).tail (.pass rfl)

theorem Step.moves (h : Step c d) : ReflTransGen Move c d := by
  cases h with
  | advance =>
    cases hc : c.ahead with
    | nil => simp [Cursor.advance, hc, ReflTransGen.refl]
    | cons x rest =>
      rw [advance_eq hc]
      exact .single (.pass hc)
  | accept x =>
    by_cases hx : x ∈ c.ahead.head?
    · obtain ⟨rest, hc⟩ := List.head?_eq_some_iff.mp hx
      rw [accept?_eq_some hc]
      exact .single (.pass hc)
    · rw [accept?_eq_none hx]
      exact .refl
  | advanceWhile p =>
    obtain ⟨run, rest, hc, hrun, hrest⟩ := exists_run p c.ahead
    rw [advanceWhile_eq hc hrun hrest]
    exact .single (.pass hc)
  | setMark => exact .single (.setMark c)
  | next => exact moves_next c

theorem Move.onward (h : Move c d) (hc : InStep source c) : c.Onward d := by
  cases h with
  | pass h =>
    refine ⟨Nat.le_add_right _ _, ?_, le_rfl⟩
    simp only [Cursor.after, Place.offset_through]
    omega
  | setMark => exact ⟨le_rfl, le_rfl, hc.mark.2⟩
  | finish => exact ⟨le_rfl, le_rfl, le_rfl⟩

theorem Move.splits (h : Move c d) (hc : Splits source front s c) :
    ∃ front s, Splits source front s d := by
  cases h with
  | pass h => exact ⟨_, _, hc.after h⟩
  | setMark => exact ⟨_, _, hc.setMark⟩
  | finish => exact ⟨front, s, hc.text, hc.passed, hc.marked, hc.mark, hc.place⟩

theorem Onward.trans {e : Cursor} (h : c.Onward d) (k : d.Onward e) : c.Onward e :=
  ⟨h.passed.trans k.passed, h.offset.trans k.offset, h.mark.trans k.mark⟩

theorem onward_of_moves (h : ReflTransGen Move c d) (hc : Splits source front s c) :
    c.Onward d ∧ ∃ front s, Splits source front s d := by
  induction h with
  | refl => exact ⟨⟨le_rfl, le_rfl, le_rfl⟩, front, s, hc⟩
  | tail _ hmove ih =>
    obtain ⟨honward, front, s, hsplits⟩ := ih
    exact ⟨honward.trans (hmove.onward hsplits.inStep), hmove.splits hsplits⟩

theorem moves_of_steps (h : ReflTransGen Step c d) : ReflTransGen Move c d :=
  reflTransGen_closed (fun _ _ hstep ↦ Step.moves hstep) c d h

theorem Reachable.exists_splits (h : Reachable source c) : ∃ front s, Splits source front s c :=
  (onward_of_moves (moves_of_steps h) (splits_ofSource source)).2

theorem token_of_next {t : Token} (h : c.next = (some t, d)) : t = d.token t.kind := by
  unfold next at h
  split at h
  · cases h
  · simp only [scan, Prod.mk.injEq, Option.some.injEq] at h
    obtain ⟨rfl, rfl⟩ := h
    split <;> rfl

theorem InStep.le_of_mem_counters (h : InStep source c) :
    ∀ n ∈ c.counters, n ≤ source.utf8ByteSize + 1 := by
  intro n hn
  have hlength := length_le_utf8Len source.toList
  rw [utf8Len_toList, length_toList] at hlength
  have hpassed := h.passed_le
  have hoffset := h.boundary.2
  have hmark := h.mark.2
  obtain ⟨⟨hline, hcolumn⟩, hsum⟩ := h.counted
  obtain ⟨⟨hmarkLine, hmarkColumn⟩, hmarkSum⟩ := h.markCounted
  simp only [counters, List.mem_cons, List.not_mem_nil, or_false] at hn
  omega

end Cursor

/-- A cursor that has been led anywhere is in step with the source, and whatever is done then takes
nothing back. The token that comes next does not end before it begins and has its slice for a text;
and 64 bits are enough for every counter, if they are for the size of the source and one. -/
theorem cursor_in_step {source : String} {c : Cursor} (h : Cursor.Reachable source c) :
    Cursor.InStep source c ∧ (∀ d, ReflTransGen Cursor.Step c d → c.Onward d) ∧
      (∀ t d, c.next = (some t, d) → t.span = ⟨d.mark.offset, d.place.offset⟩ ∧
        t.span.start ≤ t.span.stop ∧ t.text =
          if t.kind = .lineSeparator ∨ t.kind = .endOfInput then none
          else some (t.span.slice source)) ∧
      (source.utf8ByteSize + 1 < 2 ^ 64 → ∀ n ∈ c.counters, n < 2 ^ 64) := by
  obtain ⟨front, s, hsplits⟩ := h.exists_splits
  have hstep := hsplits.inStep
  refine ⟨hstep, fun d hd ↦ ?_, fun t d hnext ↦ ?_, fun hfits n hn ↦ ?_⟩
  · exact (Cursor.onward_of_moves (Cursor.moves_of_steps hd) hsplits).1
  · have hreach : Cursor.Reachable source c.next.2 := h.tail (.next c)
    rw [hnext] at hreach
    obtain ⟨front, s, hsplits⟩ := hreach.exists_splits
    have hstands := hsplits.standsFor t.kind
    rw [← Cursor.token_of_next hnext] at hstands
    have hspan : t.span = ⟨d.mark.offset, d.place.offset⟩ := by
      rw [Cursor.token_of_next hnext]
      rfl
    exact ⟨hspan, hspan ▸ hsplits.inStep.mark.2, hstands.text⟩
  · exact (hstep.le_of_mem_counters n hn).trans_lt hfits

/-- Behind the first token the cursor is made to pass half of a line break, which no scan does. -/
theorem in_step_within_break :
    let source := "é\r\nx"
    let c := (Cursor.ofSource source).next.2.advance
    Cursor.Reachable source c ∧ c.place = ⟨3, 1, 3⟩ ∧ Cursor.InStep source c ∧
      c.Onward c.next.2 ∧ source.utf8ByteSize + 1 < 2 ^ 64 ∧ ∀ n ∈ c.counters, n < 2 ^ 64 := by
  intro source c
  have hreach : Cursor.Reachable source c := (ReflTransGen.single (.next _)).tail (.advance _)
  obtain ⟨hstep, honward, -, hcounters⟩ := cursor_in_step hreach
  have hfits : source.utf8ByteSize + 1 < 2 ^ 64 := by decide +kernel
  exact ⟨hreach, by decide +kernel, hstep, honward _ (.single (.next c)), hfits, hcounters hfits⟩

end Lexemes
