import Lexemes.Proofs.Lines
import Mathlib.Data.Prod.Lex

namespace Lexemes

open String Text

/-- A `\r\n` lies across the cut. -/
def TearsBreak (front rest : List Char) : Prop :=
  front.getLast? = some '\r' ∧ rest.head? = some '\n'

def lastLine (cs : List Char) : List Char :=
  (lines cs).getLast (lines_ne_nil cs)

def endedLines (cs : List Char) : List (List Char) :=
  (lines cs).dropLast

def Place.behind (front : List Char) : Place where
  offset := utf8Len front
  line := 1 + (endedLines front).length
  column := 1 + (lastLine front).length

/-- The token begins where `rest` does: a line further for each line break in `front`, a column
further for each character behind the last of them, and not within a `\r\n`. -/
structure Token.StandsBetween (t : Token) (front rest : List Char) : Prop where
  start : t.span.start = utf8Len front
  line : t.line = 1 + (endedLines front).length
  column : t.column = 1 + (lastLine front).length
  whole : ¬ TearsBreak front rest

variable {p q : Place} {c : Char} {k : Kind} {s t cs L b gap front rest : List Char}

theorem tearsBreak_append (h : s ≠ []) : TearsBreak (front ++ s) rest ↔ TearsBreak s rest := by
  rw [TearsBreak, TearsBreak, List.getLast?_append_of_ne_nil _ h]

theorem not_tearsBreak_nil : ¬ TearsBreak [] rest := fun h ↦ by cases h.1

theorem Unbroken.not_tearsBreak (h : Unbroken s) (hs : s ≠ []) :
    ¬ TearsBreak (front ++ s) rest := by
  rw [tearsBreak_append hs]
  intro htears
  have hr : isLineBreak '\r' = false := h '\r' (List.mem_of_getLast? htears.1)
  exact absurd hr (by decide)

theorem operators_unbroken : ∀ p ∈ operators, p.1.all fun x ↦ !isLineBreak x := by decide

theorem unbroken_of_continues {test : Char → Bool} (htest : ∀ x, isBlank x → test x = false)
    (h : ∀ x ∈ s, test x) : Unbroken s := by
  intro x hx
  refine Bool.eq_false_iff.mpr fun hb ↦ ?_
  have hfalse := htest x (isBlank_of_isLineBreak hb)
  simp [h x hx] at hfalse

theorem unbroken_cons : Unbroken (c :: s) ↔ isLineBreak c = false ∧ Unbroken s :=
  List.forall_mem_cons

theorem IsLexeme.unbroken (h : IsLexeme k s) (hk : k ≠ .lineSeparator) : Unbroken s := by
  obtain ⟨x, s, rfl⟩ := List.exists_cons_of_ne_nil h.ne_nil
  refine unbroken_cons.mpr ⟨isLineBreak_of_not_isBlank (h.not_isBlank hk), ?_⟩
  rw [isLexeme_cons_iff] at h
  cases hh : Head.of x <;> simp only [Completes, hh] at h
  case lineBreak => exact absurd h.1 hk
  case word => exact unbroken_of_continues (fun _ ↦ continuesWord_blank) h.2
  case digit => exact unbroken_of_continues (fun _ ↦ continuesNumber_blank) h.2
  case quote =>
    have hbody : ∀ {cs : List Char}, (∀ y ∈ cs, Kind.continuesString y) → Unbroken cs :=
      fun h y hy ↦ by simpa using (Bool.and_eq_true_iff.mp (h y hy)).2
    rcases h with ⟨-, body, rfl, h⟩ | ⟨-, h⟩
    · exact unbroken_append.mpr ⟨hbody h, by simp [Unbroken, isLineBreak]⟩
    · exact hbody h
  case other =>
    rcases h with ⟨-, -, body, rfl, h⟩ | h | ⟨-, rfl, -⟩
    · exact unbroken_cons.mpr ⟨by decide, fun y hy ↦ by simpa [Kind.continuesComment] using h y hy⟩
    · have hall := List.all_eq_true.mp (operators_unbroken _ h)
      exact fun y hy ↦ by simpa using hall y (List.mem_cons_of_mem _ hy)
    · simp [Unbroken]

theorem Longest.not_tearsBreak (h : Longest k s (s ++ rest)) : ¬ TearsBreak (front ++ s) rest := by
  have hs := h.isLexeme
  by_cases hk : k = .lineSeparator
  · subst hk
    intro htears
    obtain ⟨tail, rfl⟩ := List.head?_eq_some_iff.mp htears.2
    exact absurd h.not_blank (by decide)
  · exact (hs.unbroken hk).not_tearsBreak hs.ne_nil

theorem unbroken_of_isSpace (h : ∀ x ∈ gap, isSpace x) : Unbroken gap := by
  intro x hx
  have hspace := h x hx
  simp only [isSpace, Bool.and_eq_true, Bool.not_eq_true'] at hspace
  exact hspace.2

theorem not_tearsBreak_gap (hgap : ∀ x ∈ gap, isSpace x) (h : ¬ TearsBreak front (gap ++ rest)) :
    ¬ TearsBreak (front ++ gap) rest := by
  by_cases hnil : gap = []
  · subst hnil
    simpa using h
  · exact (unbroken_of_isSpace hgap).not_tearsBreak hnil

namespace Place

/-- The place `q` of a text, as a place of the source in which that text begins at `p`: only the
first line of the text has something in front. -/
def shift (p q : Place) : Place where
  offset := p.offset + q.offset
  line := q.line + (p.line - 1)
  column := if q.line = 1 then q.column + (p.column - 1) else q.column

def Counted (p : Place) : Prop :=
  1 ≤ p.line ∧ 1 ≤ p.column

theorem Counted.past (h : q.Counted) (next : Option Char) : (q.past c next).Counted := by
  obtain ⟨hl, hc⟩ := h
  unfold Place.past
  split
  · exact ⟨by simp, le_rfl⟩
  · exact ⟨hl, by simp⟩

theorem Counted.through (h : q.Counted) : (q.through cs rest).Counted := by
  induction cs generalizing q with
  | nil => exact h
  | cons c cs ih => exact ih (h.past _)

theorem counted_start : ({} : Place).Counted := ⟨le_rfl, le_rfl⟩

theorem shift_start (h : p.Counted) : p.shift {} = p := by
  obtain ⟨hl, hc⟩ := h
  cases p
  simp only [shift, mk.injEq, if_true] at hl hc ⊢
  omega

theorem past_shift (h : q.Counted) (next : Option Char) :
    (p.shift q).past c next = p.shift (q.past c next) := by
  have hl := h.1
  unfold past
  split
  · have hne : q.line + 1 ≠ 1 := by omega
    simp only [shift, mk.injEq, hne, if_false, and_true]
    omega
  · simp only [shift, mk.injEq, true_and]
    split <;> omega

theorem through_shift (h : q.Counted) :
    (p.shift q).through cs rest = p.shift (q.through cs rest) := by
  induction cs generalizing q with
  | nil => rfl
  | cons c cs ih => rw [through, through, past_shift h, ih (h.past _)]

end Place

theorem TearsBreak.append (h : TearsBreak s rest) : TearsBreak (front ++ s) rest := by
  have hs : s ≠ [] := by
    intro hs
    subst hs
    cases h.1
  exact (tearsBreak_append hs).mpr h

theorem endsLine_of_not_tearsBreak (h : ¬ TearsBreak (c :: cs) rest) :
    Place.endsLine c (cs ++ rest).head? = Place.endsLine c cs.head? := by
  cases cs with
  | nil =>
    by_cases hc : c = '\r'
    · have hrest : (rest.head? != some '\n') = true :=
        bne_iff_ne.mpr fun hrest ↦ h ⟨congrArg some hc, hrest⟩
      have hnone : ((none : Option Char) != some '\n') = true := rfl
      simp [Place.endsLine, hrest, hnone]
    · simp [Place.endsLine, beq_eq_false_iff_ne.mpr hc]
  | cons x cs => rfl

theorem Place.through_of_not_tearsBreak (h : ¬ TearsBreak cs rest) :
    p.through cs rest = p.through cs [] := by
  induction cs generalizing p with
  | nil => rfl
  | cons c cs ih =>
    have hcs : ¬ TearsBreak cs rest := fun htears ↦ h (htears.append : TearsBreak ([c] ++ cs) rest)
    simp only [through, past, endsLine_of_not_tearsBreak h, List.append_nil, ih hcs]

theorem Breaks.append (hb : Breaks b cs) (h : ¬ TearsBreak (b ++ cs) rest) :
    Breaks b (cs ++ rest) := by
  cases hb with
  | newline => exact .newline _
  | both => exact .both _
  | alone _ hcs =>
    refine .alone _ fun hhead ↦ ?_
    cases cs with
    | nil => exact h ⟨rfl, hhead⟩
    | cons c cs => exact hcs hhead

namespace Place

theorem behind_unbroken (hL : Unbroken L) : behind L = ⟨utf8Len L, 1, 1 + L.length⟩ := by
  simp [behind, endedLines, lastLine, lines_unbroken hL]

theorem behind_append (hL : Unbroken L) (hb : Breaks b cs) :
    behind (L ++ (b ++ cs)) = (⟨utf8Len (L ++ b), 2, 1⟩ : Place).shift (behind cs) := by
  have hne := lines_ne_nil cs
  simp only [behind, shift, endedLines, lastLine, lines_append hL hb,
    List.dropLast_cons_of_ne_nil hne, List.getLast_cons hne, utf8Len_append, List.length_cons, mk.injEq]
  refine ⟨by omega, by omega, ?_⟩
  simp

/-- Counting as the scan goes and counting in the text in front come to the same. -/
theorem through_eq_behind (h : ¬ TearsBreak front rest) :
    ({} : Place).through front rest = behind front := by
  induction front using lines_induction with
  | line L hL => simp [through_of_unbroken _ _ _ hL, behind_unbroken hL]
  | broken L b cs hL hb ih =>
    have hcs : ¬ TearsBreak cs rest := by
      intro htears
      have hall : TearsBreak ((L ++ b) ++ cs) rest := htears.append
      exact h (by simpa using hall)
    have hbreaks : Breaks b (cs ++ rest) := hb.append fun htears ↦ h htears.append
    let q : Place := ⟨utf8Len (L ++ b), 2, 1⟩
    have hq : ({} : Place).through (L ++ b) (cs ++ rest) = q := by
      rw [through_append, through_of_unbroken _ _ _ hL, through_breaks hbreaks]
      simp [q]
    calc
      ({} : Place).through (L ++ (b ++ cs)) rest = q.through cs rest := by
        rw [← List.append_assoc, through_append, hq]
      _ = (q.shift {}).through cs rest := by rw [shift_start ⟨by simp [q], le_rfl⟩]
      _ = q.shift (behind cs) := by rw [through_shift counted_start, ih hcs]
      _ = behind (L ++ (b ++ cs)) := (behind_append hL hb).symm

end Place

theorem standsBetween_ofLexeme (h : ¬ TearsBreak front rest) :
    (Token.ofLexeme (({} : Place).through front rest) k s).StandsBetween front rest := by
  rw [Place.through_eq_behind h]
  exact ⟨rfl, rfl, rfl, h⟩

theorem standsBetween_tokensAt (h : ¬ TearsBreak front cs) :
    ∀ t ∈ tokensAt (({} : Place).through front cs) cs,
      ∃ before behind, front ++ cs = before ++ behind ∧ t.StandsBetween before behind := by
  induction cs using munch_induction generalizing front with
  | spaces cs hspaces =>
    have hend : ¬ TearsBreak (front ++ cs) [] := fun htears ↦ by cases htears.2
    rw [tokensAt_spaces hspaces, List.forall_mem_singleton]
    refine ⟨front ++ cs, [], (List.append_nil _).symm, ?_⟩
    simpa [Place.through_append] using standsBetween_ofLexeme (k := .endOfInput) (s := []) hend
  | lexeme gap k s rest hgap hs ih =>
    have hstart : ¬ TearsBreak (front ++ gap) (s ++ rest) := not_tearsBreak_gap hgap h
    have hstop : ¬ TearsBreak (front ++ (gap ++ s)) rest := by
      rw [← List.append_assoc]
      exact hs.not_tearsBreak
    rw [tokensAt_lexeme hgap hs, List.forall_mem_cons]
    constructor
    · refine ⟨front ++ gap, s ++ rest, by simp, ?_⟩
      simpa [Place.through_append] using standsBetween_ofLexeme (k := k) (s := s) hstart
    · have hrest := ih hstop
      simpa [Place.through_append] using hrest

def Place.key (p : Place) : ℕ ×ₗ ℕ :=
  toLex (p.line, p.column)

def Token.key (t : Token) : ℕ ×ₗ ℕ :=
  toLex (t.line, t.column)

theorem key_past (next : Option Char) : p.key < (p.past c next).key := by
  unfold Place.past
  split <;> simp [Place.key, Prod.Lex.toLex_lt_toLex]

theorem key_through_le : p.key ≤ (p.through cs rest).key := by
  induction cs generalizing p with
  | nil => exact le_rfl
  | cons c cs ih => exact (key_past _).le.trans ih

theorem key_through_lt (h : cs ≠ []) : p.key < (p.through cs rest).key := by
  obtain ⟨c, cs, rfl⟩ := List.exists_cons_of_ne_nil h
  exact (key_past _).trans_le key_through_le

theorem key_tokensAt_le : ∀ t ∈ tokensAt p cs, p.key ≤ t.key := by
  induction cs using munch_induction generalizing p with
  | spaces cs h =>
    rw [tokensAt_spaces h, List.forall_mem_singleton]
    exact key_through_le
  | lexeme gap k s rest hgap hs ih =>
    rw [tokensAt_lexeme hgap hs, List.forall_mem_cons]
    exact ⟨key_through_le, fun t ht ↦ key_through_le.trans (ih t ht)⟩

theorem pairwise_key_tokensAt : (tokensAt p cs).Pairwise fun t u ↦ t.key < u.key := by
  induction cs using munch_induction generalizing p with
  | spaces cs h =>
    rw [tokensAt_spaces h]
    exact List.pairwise_singleton _ _
  | lexeme gap k s rest hgap hs ih =>
    rw [tokensAt_lexeme hgap hs, List.pairwise_cons]
    refine ⟨fun u hu ↦ ?_, ih⟩
    have hu' := key_tokensAt_le u hu
    rw [Place.through_append] at hu'
    exact (key_through_lt hs.isLexeme.ne_nil).trans_le hu'

/-- Every token has the line and the column of its first character, and they grow from each to the
next. -/
theorem tokens_positions (source : String) :
    (∀ t ∈ tokens source, ∃ front rest,
      source.toList = front ++ rest ∧ t.StandsBetween front rest) ∧
      (tokens source).Pairwise fun t u ↦ toLex (t.line, t.column) < toLex (u.line, u.column) := by
  have hstart : ¬ TearsBreak [] source.toList := not_tearsBreak_nil
  have horder : (tokensAt {} source.toList).Pairwise fun t u ↦ t.key < u.key :=
    pairwise_key_tokensAt
  exact ⟨standsBetween_tokensAt hstart, horder⟩

theorem position_behind_breaks :
    let source := "\"é\r\n\u2028 x"
    let name : Token := ⟨.identifier, some "x", ⟨9, 10⟩, 2, 3⟩
    name ∈ tokens source ∧
      ∃ front rest, source.toList = front ++ rest ∧ name.StandsBetween front rest := by
  intro source name
  have hname : name ∈ tokens source := by decide +kernel
  exact ⟨hname, (tokens_positions source).1 name hname⟩

end Lexemes
