import Lexemes.Dump
import Lexemes.Proofs.Tokens

namespace Lexemes

open String Text

/-- The lines of a text: `\r\n`, `\n` and a `\r` that stands alone lie between them. -/
def lines : List Char → List (List Char)
  | [] => [[]]
  | '\r' :: '\n' :: cs => [] :: lines cs
  | c :: cs => if isLineBreak c then [] :: lines cs else (lines cs).modifyHead (c :: ·)

inductive Breaks : List Char → List Char → Prop
  | newline (rest : List Char) : Breaks ['\n'] rest
  | both (rest : List Char) : Breaks ['\r', '\n'] rest
  | alone (rest : List Char) (h : rest.head? ≠ some '\n') : Breaks ['\r'] rest

def Unbroken (cs : List Char) : Prop :=
  ∀ c ∈ cs, isLineBreak c = false

variable {L b cs gap rest : List Char} {c : Char} {k : Kind} {s : List Char} {p q : Place}

theorem unbroken_append : Unbroken (gap ++ rest) ↔ Unbroken gap ∧ Unbroken rest :=
  List.forall_mem_append

theorem lines_cons (h : isLineBreak c = false) : lines (c :: cs) = (lines cs).modifyHead (c :: ·) := by
  rw [lines]
  · simp [h]
  · intro d hc
    subst hc
    exact absurd h (by decide)

theorem lines_breaks (h : Breaks b rest) : lines (b ++ rest) = [] :: lines rest := by
  cases h with
  | newline => simp [lines, isLineBreak]
  | both => simp [lines]
  | alone _ h =>
    rw [List.singleton_append, lines]
    · simp [isLineBreak]
    · intro d _ hd
      simp [hd] at h

theorem lines_unbroken (h : Unbroken L) : lines L = [L] := by
  induction L with
  | nil => rfl
  | cons c L ih =>
    rw [lines_cons (h c (by simp)), ih fun x hx ↦ h x (by simp [hx])]
    rfl

theorem lines_append (hL : Unbroken L) (hb : Breaks b rest) :
    lines (L ++ (b ++ rest)) = L :: lines rest := by
  induction L with
  | nil => exact lines_breaks hb
  | cons c L ih =>
    rw [List.cons_append, lines_cons (hL c (by simp)), ih fun x hx ↦ hL x (by simp [hx])]
    rfl

theorem lines_ne_nil (cs : List Char) : lines cs ≠ [] := by
  induction cs using lines.induct <;> simp_all [lines]

theorem exists_breaks (h : isLineBreak c) : ∃ b rest, c :: cs = b ++ rest ∧ Breaks b rest := by
  obtain rfl | rfl : c = '\n' ∨ c = '\r' := by simpa [isLineBreak] using h
  · exact ⟨['\n'], cs, rfl, .newline cs⟩
  · by_cases hn : cs.head? = some '\n'
    · obtain ⟨rest, rfl⟩ := List.head?_eq_some_iff.mp hn
      exact ⟨['\r', '\n'], rest, rfl, .both rest⟩
    · exact ⟨['\r'], cs, rfl, .alone cs hn⟩

@[elab_as_elim]
theorem lines_induction {motive : List Char → Prop} (line : ∀ L, Unbroken L → motive L)
    (broken : ∀ L b rest, Unbroken L → Breaks b rest → motive rest → motive (L ++ (b ++ rest)))
    (cs : List Char) : motive cs := by
  induction hn : cs.length using Nat.strong_induction_on generalizing cs with
  | _ n ih =>
    obtain ⟨L, tail, rfl, hL, htail⟩ := exists_run (fun c ↦ !isLineBreak c) cs
    replace hL : Unbroken L := by simpa [Unbroken] using hL
    cases tail with
    | nil => exact line _ (by simpa using hL)
    | cons c tail =>
      obtain ⟨b, rest, hb, hbreaks⟩ : ∃ b rest, c :: tail = b ++ rest ∧ Breaks b rest :=
        exists_breaks (by simpa using htail)
      rw [hb] at hn ⊢
      refine broken L b rest hL hbreaks (ih rest.length ?_ rest rfl)
      have hpos : 0 < b.length := by cases hbreaks <;> simp
      simp only [List.length_append] at hn
      omega

theorem Breaks.exists_cons (h : Breaks b rest) :
    ∃ c run, b = c :: run ∧ isLineBreak c ∧ ∀ x ∈ run, isBlank x := by
  cases h with
  | newline => exact ⟨'\n', [], rfl, by decide, by simp⟩
  | both => exact ⟨'\r', ['\n'], rfl, by decide, List.forall_mem_singleton.mpr (by decide)⟩
  | alone => exact ⟨'\r', [], rfl, by decide, by simp⟩

theorem Breaks.isBlank (h : Breaks b rest) : ∀ x ∈ b, isBlank x := by
  obtain ⟨c, run, rfl, hc, hrun⟩ := h.exists_cons
  simpa [isBlank_of_isLineBreak hc] using hrun

theorem through_breaks (h : Breaks b rest) :
    p.through b rest = ⟨p.offset + utf8Len b, p.line + 1, 1⟩ := by
  cases h with
  | newline => simp [Place.through, Place.past, Place.endsLine]
  | both =>
    simp only [Place.through, Place.past, Place.endsLine, List.singleton_append]
    simp [Nat.add_comm, Nat.add_left_comm]
  | alone _ h =>
    have hend : Place.endsLine '\r' rest.head? := by simp [Place.endsLine, h]
    simp [Place.through, Place.past, hend]

theorem through_line (hL : Unbroken L) (hb : Breaks b rest) :
    (p.through (L ++ b) rest).line = p.line + 1 ∧ (p.through (L ++ b) rest).column = 1 := by
  rw [Place.through_append, Place.through_of_unbroken _ _ _ hL, through_breaks hb]
  exact ⟨rfl, rfl⟩

def lexemesAt (p : Place) (cs : List Char) : List Token :=
  (tokensAt p cs).filter fun t ↦ !t.isEnd

theorem lexemesAt_spaces (h : ∀ x ∈ cs, isSpace x) : lexemesAt p cs = [] := by
  rw [lexemesAt, tokensAt_spaces h]
  rfl

theorem lexemesAt_lexeme (hgap : ∀ x ∈ gap, isSpace x) (hs : Longest k s (s ++ rest)) :
    lexemesAt p (gap ++ (s ++ rest)) = .ofLexeme (p.through gap (s ++ rest)) k s ::
      lexemesAt (p.through (gap ++ s) rest) rest := by
  have hk := hs.isLexeme.ne_endOfInput
  rw [lexemesAt, tokensAt_lexeme hgap hs, List.filter_cons_of_pos]
  · rfl
  · simpa [Token.isEnd, Token.ofLexeme] using hk

theorem tokensAt_eq_lexemesAt :
    tokensAt p cs = lexemesAt p cs ++ [.ofLexeme (p.through cs []) .endOfInput []] := by
  induction cs using munch_induction generalizing p with
  | spaces cs h => rw [lexemesAt_spaces h, tokensAt_spaces h, List.nil_append]
  | lexeme gap k s rest hgap hs ih =>
    have hend : p.through (gap ++ (s ++ rest)) [] = (p.through (gap ++ s) rest).through rest [] := by
      rw [← List.append_assoc, Place.through_append, List.append_nil]
    rw [lexemesAt_lexeme hgap hs, tokensAt_lexeme hgap hs, ih, hend, List.cons_append]

/-- The tokens that are still to come once a line has been ended: blanks no longer count. -/
def resume (p : Place) (cs : List Char) : List Token :=
  tokensAt (p.through (cs.takeWhile isBlank) (cs.dropWhile isBlank)) (cs.dropWhile isBlank)

theorem resume_append (hgap : ∀ x ∈ gap, isBlank x) (hrest : ∀ x ∈ rest.head?, isBlank x = false) :
    resume p (gap ++ rest) = tokensAt (p.through gap rest) rest := by
  rw [resume, takeWhile_run hgap hrest, dropWhile_run hgap hrest]

theorem resume_blank (hgap : ∀ x ∈ gap, isBlank x) :
    resume p (gap ++ cs) = resume (p.through gap cs) cs := by
  obtain ⟨run, rest, rfl, hrun, hrest⟩ := exists_run isBlank cs
  have hall : ∀ x ∈ gap ++ run, isBlank x := List.forall_mem_append.mpr ⟨hgap, hrun⟩
  rw [← List.append_assoc, resume_append hall hrest, resume_append hrun hrest,
    Place.through_append]

theorem Unbroken.isSpace (h : Unbroken gap) (hgap : ∀ x ∈ gap, isBlank x) :
    ∀ x ∈ gap, Text.isSpace x := by
  intro x hx
  simp [Text.isSpace, hgap x hx, h x hx]

theorem resume_unbroken (hgap : Unbroken gap) (hblank : ∀ x ∈ gap, isBlank x)
    (hrest : ∀ x ∈ rest.head?, isBlank x = false) :
    resume p (gap ++ rest) = tokensAt p (gap ++ rest) := by
  rw [resume_append hblank hrest, tokensAt_gap (hgap.isSpace hblank)]

theorem Longest.ne_lineSeparator (h : Longest k s (s ++ rest)) (hs : Unbroken s) :
    k ≠ .lineSeparator := by
  intro hk
  subst hk
  obtain ⟨c, run, rfl, hc, -⟩ := isLexeme_lineSeparator_iff.mp h.isLexeme
  simp [hs c] at hc

theorem tokensAt_breaks (hgap : ∀ x ∈ gap, isSpace x) (hb : Breaks b rest) :
    tokensAt p (gap ++ (b ++ rest)) =
      .ofLexeme (p.through gap (b ++ rest)) .lineSeparator (b ++ rest.takeWhile isBlank) ::
        resume (p.through (gap ++ b) rest) rest := by
  obtain ⟨c, run, rfl, hc, hrun⟩ := hb.exists_cons
  obtain ⟨blanks, tail, rfl, hblanks, htail⟩ := exists_run isBlank rest
  have hlongest : Longest .lineSeparator (c :: (run ++ blanks)) (c :: (run ++ blanks) ++ tail) :=
    longest_lineSeparator hc (List.forall_mem_append.mpr ⟨hrun, hblanks⟩) htail
  have htext : c :: run ++ (blanks ++ tail) = c :: (run ++ blanks) ++ tail := by simp
  have hbehind : (p.through (gap ++ c :: run) (blanks ++ tail)).through blanks tail =
      p.through (gap ++ c :: (run ++ blanks)) tail := by
    rw [← Place.through_append, List.append_assoc, List.cons_append]
  rw [resume_append hblanks htail, takeWhile_run hblanks htail, htext, hbehind,
    tokensAt_lexeme hgap hlongest]
  rfl

theorem tokensAt_line (hL : Unbroken L) (hb : Breaks b rest) :
    tokensAt p (L ++ (b ++ rest)) = lexemesAt p L ++
      .ofLexeme (p.through L (b ++ rest)) .lineSeparator (b ++ rest.takeWhile isBlank) ::
        resume (p.through (L ++ b) rest) rest := by
  induction L using munch_induction generalizing p with
  | spaces L h => rw [tokensAt_breaks h hb, lexemesAt_spaces h, List.nil_append]
  | lexeme gap k s tail hgap hs ih =>
    obtain ⟨hg, hst⟩ := unbroken_append.mp hL
    obtain ⟨hs', ht⟩ := unbroken_append.mp hst
    have hlongest : Longest k s (s ++ (tail ++ (b ++ rest))) := by
      obtain ⟨c, run, rfl, hc, -⟩ := hb.exists_cons
      exact hs.before_lineBreak (hs.ne_lineSeparator hs') hc
    have hplace : p.through gap (s ++ (tail ++ (b ++ rest))) = p.through gap (s ++ tail) := by
      rw [Place.through_of_unbroken _ _ _ hg, Place.through_of_unbroken _ _ _ hg]
    have hfront : p.through (gap ++ s) (tail ++ (b ++ rest)) = p.through (gap ++ s) tail := by
      have hgs : Unbroken (gap ++ s) := unbroken_append.mpr ⟨hg, hs'⟩
      rw [Place.through_of_unbroken _ _ _ hgs, Place.through_of_unbroken _ _ _ hgs]
    have hend : p.through (gap ++ (s ++ tail)) (b ++ rest) =
        (p.through (gap ++ s) tail).through tail (b ++ rest) := by
      rw [← List.append_assoc, Place.through_append, hfront]
    have hbehind : p.through (gap ++ (s ++ tail) ++ b) rest =
        (p.through (gap ++ s) tail).through (tail ++ b) rest := by
      rw [Place.through_append, hend, ← Place.through_append]
    rw [List.append_assoc, List.append_assoc, tokensAt_lexeme hgap hlongest, hplace, hfront,
      ih ht, lexemesAt_lexeme hgap hs, hend, hbehind, List.cons_append]

structure Shown where
  kind : Kind
  text : Option String
  line : Nat
  column : Nat
  deriving DecidableEq

def Token.shown (t : Token) : Shown :=
  ⟨t.kind, t.text, t.line, t.column⟩

def lineTokens (i : Nat) (line : List Char) : List Shown :=
  ((tokens (String.ofList line)).filter fun t ↦ !t.isEnd).map fun t ↦ { t.shown with line := i }

/-- What follows line `i` when it is not the last. -/
def separator (i : Nat) (line : List Char) : List Shown :=
  if i = 1 ∨ ¬ line.all isBlank then [⟨.lineSeparator, none, i, 1 + line.length⟩] else []

/-- The tokens of the lines that begin with line `i`. -/
def byLines : Nat → List (List Char) → List Shown
  | _, [] => []
  | i, [line] => lineTokens i line ++ [⟨.endOfInput, none, i, 1 + line.length⟩]
  | i, line :: below :: rest =>
    lineTokens i line ++ separator i line ++ byLines (i + 1) (below :: rest)

theorem shown_lexemesAt (hcs : Unbroken cs) (h : p.column = q.column) :
    (lexemesAt p cs).map Token.shown =
      (lexemesAt q cs).map fun t ↦ { t.shown with line := p.line } := by
  induction cs using munch_induction generalizing p q with
  | spaces cs hspaces => simp [lexemesAt_spaces hspaces]
  | lexeme gap k s rest hgap hs ih =>
    obtain ⟨hg, hcs⟩ := unbroken_append.mp hcs
    obtain ⟨hs', hr⟩ := unbroken_append.mp hcs
    have hgs : Unbroken (gap ++ s) := unbroken_append.mpr ⟨hg, hs'⟩
    rw [lexemesAt_lexeme hgap hs, lexemesAt_lexeme hgap hs, Place.through_of_unbroken _ _ _ hg,
      Place.through_of_unbroken _ _ _ hg, Place.through_of_unbroken _ _ _ hgs,
      Place.through_of_unbroken _ _ _ hgs, List.map_cons, List.map_cons]
    congr 1
    · simp [Token.shown, Token.ofLexeme, h]
    · exact ih hr (by simp [h])

theorem shown_line (hL : Unbroken L) (hp : p.column = 1) :
    (lexemesAt p L).map Token.shown = lineTokens p.line L := by
  rw [shown_lexemesAt (q := {}) hL hp, lineTokens, tokens_eq_tokensAt, String.toList_ofList]
  rfl

theorem byLines_cons {i : Nat} {ls : List (List Char)} (h : ls ≠ []) :
    byLines i (L :: ls) = lineTokens i L ++ separator i L ++ byLines (i + 1) ls := by
  cases ls with
  | nil => exact absurd rfl h
  | cons below rest => rfl

theorem shown_last (hL : Unbroken L) (hp : p.column = 1) :
    (tokensAt p L).map Token.shown = byLines p.line [L] := by
  rw [tokensAt_eq_lexemesAt, List.map_append, shown_line hL hp, Place.through_of_unbroken _ _ _ hL]
  simp [byLines, Token.shown, Token.ofLexeme, hp]

theorem shown_tokensAt_line (hL : Unbroken L) (hb : Breaks b rest) (hp : p.column = 1) :
    (tokensAt p (L ++ (b ++ rest))).map Token.shown = lineTokens p.line L ++
      ⟨.lineSeparator, none, p.line, 1 + L.length⟩ ::
        (resume (p.through (L ++ b) rest) rest).map Token.shown := by
  rw [tokensAt_line hL hb, List.map_append, shown_line hL hp, List.map_cons,
    Place.through_of_unbroken _ _ _ hL]
  simp [Token.shown, Token.ofLexeme, hp]

theorem lineTokens_spaces {i : Nat} (h : ∀ x ∈ L, isSpace x) : lineTokens i L = [] := by
  have hL : lexemesAt {} L = [] := lexemesAt_spaces h
  rw [lineTokens, tokens_eq_tokensAt, String.toList_ofList]
  exact congrArg (List.map _) hL

theorem resume_line (hL : Unbroken L) (h : ∃ x ∈ L, isBlank x = false) :
    resume p (L ++ cs) = tokensAt p (L ++ cs) := by
  obtain ⟨gap, tail, rfl, hgap, htail⟩ := exists_run isBlank L
  have hg := (unbroken_append.mp hL).1
  cases tail with
  | nil =>
    obtain ⟨x, hx, hblank⟩ := h
    rw [List.append_nil] at hx
    simp [hgap x hx] at hblank
  | cons c tail =>
    rw [List.append_assoc]
    exact resume_unbroken hg hgap htail

theorem shown_resume (hp : p.column = 1) (hl : 1 < p.line) :
    (resume p cs).map Token.shown = byLines p.line (lines cs) := by
  induction cs using lines_induction generalizing p with
  | line L hL =>
    rw [lines_unbroken hL, ← shown_last hL hp]
    obtain ⟨gap, tail, rfl, hgap, htail⟩ := exists_run isBlank L
    rw [resume_unbroken (unbroken_append.mp hL).1 hgap htail]
  | broken L b rest hL hb ih =>
    obtain ⟨hline, hcolumn⟩ := through_line (p := p) hL hb
    have hrest := ih hcolumn (by omega)
    rw [lines_append hL hb, byLines_cons (lines_ne_nil rest), ← hline, ← hrest, separator]
    by_cases hblank : L.all isBlank
    · have hall := List.all_eq_true.mp hblank
      rw [← List.append_assoc, resume_blank (List.forall_mem_append.mpr ⟨hall, hb.isBlank⟩),
        lineTokens_spaces (hL.isSpace hall), if_neg]
      · rfl
      · simp only [hblank, not_true, or_false]
        omega
    · have hsome : ∃ x ∈ L, isBlank x = false := by simpa using hblank
      rw [resume_line hL hsome, shown_tokensAt_line hL hb hp, if_pos (.inr hblank)]
      simp

theorem shown_tokensAt (hp : p.column = 1) (hl : p.line = 1) :
    (tokensAt p cs).map Token.shown = byLines p.line (lines cs) := by
  cases cs using lines_induction with
  | line L hL => rw [lines_unbroken hL, shown_last hL hp]
  | broken L b rest hL hb =>
    obtain ⟨hline, hcolumn⟩ := through_line (p := p) hL hb
    have hrest : (resume _ rest).map Token.shown = _ := shown_resume hcolumn (by omega)
    rw [lines_append hL hb, byLines_cons (lines_ne_nil rest), shown_tokensAt_line hL hb hp, hrest,
      hline, separator, if_pos (.inl hl)]
    simp

def Shown.token (x : Shown) : Token :=
  ⟨x.kind, x.text, ⟨0, 0⟩, x.line, x.column⟩

theorem dump_shown (s : Settings) (hs : s.format = .text) (ts : List Token) :
    dump s ts = dump s ((ts.map Token.shown).map Shown.token) := by
  simp only [dump, hs]
  rw [List.map_map, List.filter_map, List.flatMap_map]
  rfl

/-- A source is scanned line by line, and how its lines are ended cannot be told from the dump. -/
theorem tokens_line_by_line (source : String) :
    (tokens source).map Token.shown = byLines 1 (lines source.toList) ∧
      ∀ other : String, lines source.toList = lines other.toList →
        ∀ s : Settings, s.format = .text → dump s (tokens source) = dump s (tokens other) := by
  have h : ∀ cs, (tokensAt {} cs).map Token.shown = byLines 1 (lines cs) :=
    fun cs ↦ shown_tokensAt rfl rfl
  refine ⟨h source.toList, fun other hlines s hs ↦ ?_⟩
  rw [dump_shown s hs (tokens source), dump_shown s hs (tokens other), tokens_eq_tokensAt,
    tokens_eq_tokensAt, h, h, hlines]

theorem dump_mixed_breaks :
    dump { positions := true } (tokens "\"a\r\n \r// b\n\n\t1\r") =
      dump { positions := true } (tokens "\"a\n \r\n// b\r\n\r\t1\r\n") :=
  (tokens_line_by_line _).2 _ (by decide) _ rfl

end Lexemes
