import Lexemes.Proofs.Munch

namespace Lexemes

open String Text

def Token.ofLexeme (p : Place) (k : Kind) (s : List Char) : Token where
  kind := k
  text :=
    match k with
    | .lineSeparator | .endOfInput => none
    | _ => some (String.ofList s)
  span := ⟨p.offset, p.offset + utf8Len s⟩
  line := p.line
  column := p.column

variable {k : Kind} {s gap rest cs : List Char}

theorem text_ofLexeme (p : Place) : (Token.ofLexeme p k s).text =
    if k = .lineSeparator ∨ k = .endOfInput then none else some (ofList s) := by
  cases k <;> rfl

theorem IsLexeme.not_isSpace {x : Char} (h : IsLexeme k (x :: s)) : isSpace x = false := by
  refine Bool.eq_false_iff.mpr fun hx ↦ ?_
  obtain ⟨hb, hl⟩ : isBlank x ∧ isLineBreak x = false := by simpa [isSpace] using hx
  rw [isLexeme_cons_iff] at h
  simp [Completes, Head.of, hb, hl] at h

theorem IsLexeme.not_isBlank {x : Char} (h : IsLexeme k (x :: s)) (hk : k ≠ .lineSeparator) :
    isBlank x = false := by
  have hs := h.not_isSpace
  rw [isLexeme_cons_iff] at h
  refine Bool.eq_false_iff.mpr fun hb ↦ ?_
  have hl : isLineBreak x := by simpa [isSpace, hb] using hs
  simp only [Completes, head_lineBreak hl] at h
  exact hk h.1

theorem IsLexeme.eq_lineSeparator {x : Char} (h : IsLexeme k (x :: s)) (hx : isLineBreak x) :
    k = .lineSeparator := by
  by_contra hk
  have hb := h.not_isBlank hk
  simp [isBlank_of_isLineBreak hx] at hb

theorem Longest.not_isSpace (h : Longest k s (s ++ rest)) :
    ∀ x ∈ (s ++ rest).head?, isSpace x = false := by
  obtain ⟨x, s, rfl⟩ := List.exists_cons_of_ne_nil h.isLexeme.ne_nil
  simpa using h.isLexeme.not_isSpace

namespace Cursor

def standing (p : Place) (cs : List Char) : Cursor := ⟨0, p, cs, p, cs, false⟩

variable {c d : Cursor}

theorem token_eq (h : c.Spans s) : c.token k = .ofLexeme c.mark k s := by
  unfold token Token.ofLexeme
  rw [h.lexeme?, h.offset]
  rfl

end Cursor

/-- How a text falls into lexemes is how to prove something of it. -/
@[elab_as_elim]
theorem munch_induction {motive : List Char → Prop}
    (spaces : ∀ cs, (∀ x ∈ cs, isSpace x) → motive cs)
    (lexeme : ∀ gap k s rest, (∀ x ∈ gap, isSpace x) → Longest k s (s ++ rest) → motive rest →
      motive (gap ++ (s ++ rest))) (cs : List Char) : motive cs := by
  induction hn : cs.length using Nat.strong_induction_on generalizing cs with
  | _ n ih =>
    obtain ⟨gap, text, rfl, hgap, htext⟩ := exists_run isSpace cs
    cases text with
    | nil => exact spaces _ (by simpa using hgap)
    | cons first tail =>
      let m : Cursor := (Cursor.standing {} (first :: tail)).setMark
      have hspan : (m.after [first] tail).Spans [first] := Cursor.spans_setMark.after rfl
      obtain ⟨s, rest, htail, -, hs⟩ := Cursor.takes_complete (htext first rfl) hspan
      obtain rfl : tail = s ++ rest := htail
      refine lexeme gap _ (first :: s) rest hgap hs (ih rest.length ?_ rest rfl)
      simp only [← hn, List.length_append, List.length_cons]
      omega

namespace Cursor

variable {c d : Cursor}

theorem scan_spaces (h : ∀ x ∈ c.ahead, isSpace x) :
    c.scan = (.ofLexeme (c.place.through c.ahead []) .endOfInput [],
      { (c.after c.ahead []).setMark with finished := true }) := by
  have hadv : c.advanceWhile isSpace = c.after c.ahead [] :=
    advanceWhile_eq (List.append_nil _).symm h (by simp)
  rw [scan, hadv]
  have ht := token_eq (k := .endOfInput) (spans_setMark (c := c.after c.ahead []))
  exact congrArg (·, _) ht

theorem scan_lexeme (h : c.ahead = gap ++ (s ++ rest)) (hgap : ∀ x ∈ gap, isSpace x)
    (hs : Longest k s (s ++ rest)) :
    c.scan = (.ofLexeme (c.place.through gap (s ++ rest)) k s,
      (c.after gap (s ++ rest)).setMark.after s rest) := by
  obtain ⟨first, s, rfl⟩ := List.exists_cons_of_ne_nil hs.isLexeme.ne_nil
  have hfirst := hs.isLexeme.not_isSpace
  have hadv := advanceWhile_eq h hgap (by simpa using hfirst)
  let m := (c.after gap (first :: (s ++ rest))).setMark
  have hm : m.advance = m.after [first] (s ++ rest) := advance_eq rfl
  have hspan : (m.after [first] (s ++ rest)).Spans [first] := spans_setMark.after rfl
  obtain ⟨t, tail, htext, hresult, hlongest⟩ := takes_complete hfirst hspan
  obtain ⟨hk, hst⟩ := hs.unique hlongest
  obtain rfl : s = t := (List.cons.inj hst).2
  obtain rfl : rest = tail := List.append_cancel_left htext
  have hcomplete : m.advance.complete first = (k, m.after (first :: s) rest) := by
    rw [hm]
    exact Prod.ext hk.symm (hresult.trans (after_after [first] s))
  rw [scan, hadv]
  change ((m.advance.complete first).2.token (m.advance.complete first).1,
    (m.advance.complete first).2) = _
  rw [hcomplete]
  exact congrArg (·, _) (token_eq (spans_setMark.after rfl))

theorem next_of_finished (hc : c.finished = true) : c.next = (none, c) :=
  if_pos hc

theorem next_of_scan {t : Token} (hc : c.finished = false) (h : c.scan = (t, d)) :
    c.next = (some t, d) := by
  simp [next, hc, h]

theorem tokens_of_finished (hc : c.finished = true) : c.tokens = [] := by
  have hn := next_of_finished hc
  rw [tokens]
  split
  · rfl
  · next h =>
    rw [hn] at h
    cases h

theorem tokens_of_next {t : Token} (hn : c.next = (some t, d)) : c.tokens = t :: d.tokens := by
  rw [tokens]
  split
  · next h =>
    rw [hn] at h
    cases h
  · next h =>
    rw [hn] at h
    cases h
    rfl

theorem tokens_of_scan {t : Token} (hc : c.finished = false) (h : c.scan = (t, d)) :
    c.tokens = t :: d.tokens :=
  tokens_of_next (next_of_scan hc h)

theorem tokens_spaces (hc : c.finished = false) (h : ∀ x ∈ c.ahead, isSpace x) :
    c.tokens = [.ofLexeme (c.place.through c.ahead []) .endOfInput []] := by
  rw [tokens_of_scan hc (scan_spaces h), tokens_of_finished rfl]

theorem tokens_lexeme (hc : c.finished = false) (h : c.ahead = gap ++ (s ++ rest))
    (hgap : ∀ x ∈ gap, isSpace x) (hs : Longest k s (s ++ rest)) :
    c.tokens = .ofLexeme (c.place.through gap (s ++ rest)) k s ::
      ((c.after gap (s ++ rest)).setMark.after s rest).tokens :=
  tokens_of_scan hc (scan_lexeme h hgap hs)

/-- Neither the mark nor what is behind has any part in the tokens to come. -/
theorem tokens_congr (hc : c.finished = false) (hd : d.finished = false) (hp : c.place = d.place)
    (ha : c.ahead = d.ahead) : c.tokens = d.tokens := by
  generalize hcs : d.ahead = cs at ha
  induction cs using munch_induction generalizing c d with
  | spaces cs h =>
    rw [tokens_spaces hc (ha ▸ h), tokens_spaces hd (hcs ▸ h), hp, ha, hcs]
  | lexeme gap k s rest hgap hs ih =>
    rw [tokens_lexeme hc ha hgap hs, tokens_lexeme hd hcs hgap hs, hp]
    congr 1
    refine ih (c := (c.after gap (s ++ rest)).setMark.after s rest) hc hd ?_ rfl rfl
    simp only [after, setMark, hp]

end Cursor

def tokensAt (p : Place) (cs : List Char) : List Token :=
  (Cursor.standing p cs).tokens

variable {p : Place}

theorem tokensAt_spaces (h : ∀ x ∈ cs, isSpace x) :
    tokensAt p cs = [.ofLexeme (p.through cs []) .endOfInput []] :=
  Cursor.tokens_spaces rfl h

theorem tokensAt_lexeme (hgap : ∀ x ∈ gap, isSpace x) (hs : Longest k s (s ++ rest)) :
    tokensAt p (gap ++ (s ++ rest)) = .ofLexeme (p.through gap (s ++ rest)) k s ::
      tokensAt (p.through (gap ++ s) rest) rest := by
  rw [tokensAt, Cursor.tokens_lexeme (c := .standing p _) rfl rfl hgap hs]
  refine congrArg _ (Cursor.tokens_congr (d := .standing _ _) rfl rfl ?_ rfl)
  exact (Place.through_append p gap s rest).symm

theorem tokensAt_longest (hs : Longest k s (s ++ rest)) :
    tokensAt p (s ++ rest) = .ofLexeme p k s :: tokensAt (p.through s rest) rest := by
  have hgap : ∀ x ∈ ([] : List Char), isSpace x := by simp
  exact tokensAt_lexeme hgap hs

theorem tokensAt_gap (hgap : ∀ x ∈ gap, isSpace x) :
    tokensAt p (gap ++ cs) = tokensAt (p.through gap cs) cs := by
  induction cs using munch_induction with
  | spaces cs h =>
    have hall : ∀ x ∈ gap ++ cs, isSpace x := List.forall_mem_append.mpr ⟨hgap, h⟩
    rw [tokensAt_spaces hall, tokensAt_spaces h, Place.through_append, List.append_nil]
  | lexeme skip k s rest hskip hs _ =>
    have hall : ∀ x ∈ gap ++ skip, isSpace x := List.forall_mem_append.mpr ⟨hgap, hskip⟩
    rw [← List.append_assoc, tokensAt_lexeme hall hs, tokensAt_lexeme hskip hs, List.append_assoc,
      Place.through_append, Place.through_append p gap, List.append_assoc]

theorem tokens_eq_tokensAt (source : String) : tokens source = tokensAt {} source.toList :=
  rfl

end Lexemes
