import Lexemes.Proofs.Items

namespace Lexemes

open String Text

/-- What `source` holds from byte `n` on, without the comments among the tokens. -/
def withoutComments (source : String) : Nat → List Token → String
  | _, [] => ""
  | n, t :: ts =>
    between source n t.span.start ++ (if t.kind = .comment then "" else t.span.slice source) ++
      withoutComments source t.span.stop ts

inductive Uncommented : List Char → List Char → Prop
  | spaces {cs : List Char} (h : ∀ x ∈ cs, isSpace x) : Uncommented cs cs
  | comment {gap s rest left : List Char} (hgap : ∀ x ∈ gap, isSpace x)
      (hs : Longest .comment s (s ++ rest)) (h : Uncommented rest left) :
      Uncommented (gap ++ (s ++ rest)) (gap ++ left)
  | lexeme {gap s rest left : List Char} {k : Kind} (hgap : ∀ x ∈ gap, isSpace x)
      (hk : k ≠ .comment) (hs : Longest k s (s ++ rest)) (h : Uncommented rest left) :
      Uncommented (gap ++ (s ++ rest)) (gap ++ (s ++ left))

variable {source : String} {l gap s rest cs left : List Char} {p : Place} {t : Token}
  {ts : List Token}

theorem withoutComments_cons (h : source.toList = l ++ (gap ++ rest))
    (ht : t.StandsFor source (l ++ gap) s) : (withoutComments source (utf8Len l) (t :: ts)).toList =
      gap ++ ((if t.kind = .comment then [] else s) ++
        (withoutComments source (utf8Len (l ++ gap ++ s)) ts).toList) := by
  rw [withoutComments, between_gap h ht, ht.slice, ht.stop, toList_append, toList_append,
    toList_ofList, List.append_assoc]
  split
  · rfl
  · rw [toList_ofList]

theorem uncommented_tokensAt (h : source.toList = l ++ cs) (hp : p.offset = utf8Len l) :
    Uncommented cs (withoutComments source (utf8Len l) (tokensAt p cs)).toList := by
  induction cs using munch_induction generalizing p l with
  | spaces cs hspaces =>
    have htext : source.toList = l ++ (cs ++ []) := by simpa using h
    rw [tokensAt_spaces hspaces, withoutComments_cons htext (standsFor_end h hp)]
    simpa [withoutComments] using Uncommented.spaces hspaces
  | lexeme gap k s rest hgap hs ih =>
    have hstop : (p.through (gap ++ s) rest).offset = utf8Len (l ++ gap ++ s) :=
      offset_behind_next hp
    have hrest := ih (by simpa using h) hstop
    rw [tokensAt_lexeme hgap hs, withoutComments_cons h (standsFor_next h hp)]
    by_cases hk : k = .comment
    · subst hk
      exact .comment hgap hs hrest
    · have hne : (Token.ofLexeme (p.through gap (s ++ rest)) k s).kind ≠ .comment := hk
      rw [if_neg hne]
      exact .lexeme hgap hk hs hrest

theorem comment_head (h : IsLexeme .comment s) : (s ++ rest).head? = some '/' := by
  obtain ⟨body, rfl, -⟩ := isLexeme_comment_iff.mp h
  rfl

theorem Uncommented.head (h : Uncommented cs left) (hcs : ∀ x ∈ cs.head?, isLineBreak x) :
    ∀ x ∈ left.head?, isLineBreak x := by
  cases h with
  | spaces => exact hcs
  | comment hgap hs =>
    obtain rfl := gap_eq_nil hgap hcs
    rw [List.nil_append, comment_head hs.isLexeme] at hcs
    exact absurd (hcs '/' rfl) (by decide)
  | lexeme hgap hk hs =>
    obtain rfl := gap_eq_nil hgap hcs
    rw [List.nil_append, List.head?_append_of_ne_nil _ hs.isLexeme.ne_nil] at hcs ⊢
    exact hcs

theorem Uncommented.keepsFront (h : Uncommented cs left) : KeepsFront cs left := by
  induction h with
  | spaces => exact .refl _
  | comment hgap hs h ih =>
    have hleft := h.head (hs.head_of_swallows (.inl rfl))
    exact keepsFront_of_gap hgap fun _ ↦ keepsFront_of_lineBreak hleft
  | lexeme hgap hk hs h ih => exact (ih.append _).append _

theorem Uncommented.items_eq (h : Uncommented cs left) :
    items left = foldSeparators ((items cs).filter (·.kind != .comment)) := by
  induction h with
  | spaces h =>
    rw [items_spaces h]
    rfl
  | comment hgap hs h ih =>
    rw [items_gap hgap, items_gap hgap, items_lexeme (by decide) hs, ih]
    rfl
  | @lexeme gap s rest left k hgap hk hs h ih =>
    have hkept : ((Token.ofLexeme {} k s).item.kind != .comment) = true := bne_iff_ne.mpr hk
    rw [items_gap hgap, items_gap hgap, items_longest hs, List.filter_cons, if_pos hkept,
      foldSeparators, List.foldr_cons, ← foldSeparators, ← ih]
    by_cases hsep : k = .lineSeparator
    · subst hsep
      obtain ⟨c, run, rfl, hc, hrun⟩ := isLexeme_lineSeparator_iff.mp hs.isLexeme
      exact items_lineSeparator hc hrun
    · have hs' : Longest k s (s ++ left) :=
        hs.of_keepsFront hsep h.keepsFront fun hsw ↦ h.head (hs.head_of_swallows hsw)
      rw [items_longest hs']
      exact (foldInto_of_kind hsep).symm

/-- A source without its comments has the tokens of the source without the comments among them,
where separators that have become neighbours count as one; none are neighbours in the source. -/
theorem tokens_withoutComments (source : String) :
    (tokens (withoutComments source 0 (tokens source))).map Token.item =
      foldSeparators (((tokens source).map Token.item).filter (·.kind != .comment)) ∧
        foldSeparators ((tokens source).map Token.item) = (tokens source).map Token.item := by
  have h : Uncommented source.toList (withoutComments source (utf8Len []) _).toList :=
    uncommented_tokensAt (p := {}) (List.nil_append _).symm rfl
  exact ⟨h.items_eq, foldSeparators_items source.toList⟩

end Lexemes
