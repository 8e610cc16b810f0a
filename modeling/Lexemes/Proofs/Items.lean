import Lexemes.Proofs.Lines
import Lexemes.Proofs.Lossless
import Lexemes.Proofs.Printing

namespace Lexemes

open String Text

/-- The kinds and texts of the tokens of `cs`, which are the same wherever it begins. -/
def items (cs : List Char) : List Item :=
  (tokensAt {} cs).map Token.item

/-- Puts `a` in front; where two separators meet, one of them is left. -/
def Item.foldInto (a : Item) (w : List Item) : List Item :=
  if a.kind = .lineSeparator ∧ w.head?.map Item.kind = some .lineSeparator then w else a :: w

def foldSeparators (w : List Item) : List Item :=
  w.foldr Item.foldInto []

/-- What is first in `new`, up to a blank, is first in `old` as well. -/
def KeepsFront (old new : List Char) : Prop :=
  ∀ front, (∀ x ∈ front, isBlank x = false) → front <+: new → front <+: old

variable {k : Kind} {c : Char} {s gap run rest old new cs : List Char} {a : Item} {w : List Item}

theorem foldInto_of_kind (ha : a.kind ≠ .lineSeparator) : a.foldInto w = a :: w :=
  if_neg fun h ↦ ha h.1

theorem foldInto_of_head (hw : ∀ b ∈ w.head?, b.kind ≠ .lineSeparator) : a.foldInto w = a :: w := by
  refine if_neg fun h ↦ ?_
  obtain ⟨b, hb, hk⟩ := Option.map_eq_some_iff.mp h.2
  exact hw b hb hk

theorem map_item_tokensAt (p : Place) (cs : List Char) :
    (tokensAt p cs).map Token.item = items cs := by
  have hplace : ∀ p q, (tokensAt p cs).map Token.item = (tokensAt q cs).map Token.item := by
    induction cs using munch_induction with
    | spaces cs h =>
      intro p q
      rw [tokensAt_spaces h, tokensAt_spaces h]
      rfl
    | lexeme gap k s rest hgap hs ih =>
      intro p q
      rw [tokensAt_lexeme hgap hs, tokensAt_lexeme hgap hs, List.map_cons, List.map_cons, ih]
      rfl
  exact hplace p {}

theorem items_spaces (h : ∀ x ∈ cs, isSpace x) : items cs = [⟨.endOfInput, none⟩] := by
  rw [items, tokensAt_spaces h]
  rfl

theorem items_gap (hgap : ∀ x ∈ gap, isSpace x) : items (gap ++ cs) = items cs := by
  rw [items, tokensAt_gap hgap, map_item_tokensAt]

theorem items_longest (hs : Longest k s (s ++ rest)) :
    items (s ++ rest) = (Token.ofLexeme {} k s).item :: items rest := by
  rw [items, tokensAt_longest hs, List.map_cons, map_item_tokensAt]

theorem items_lexeme (hk : k ≠ .lineSeparator) (hs : Longest k s (s ++ rest)) :
    items (s ++ rest) = ⟨k, some (ofList s)⟩ :: items rest := by
  rw [items_longest hs, item_ofLexeme hk hs.isLexeme]

theorem head_items (h : ∀ x ∈ cs.head?, isBlank x = false) :
    ∀ a ∈ (items cs).head?, a.kind ≠ .lineSeparator := by
  cases cs using munch_induction with
  | spaces cs hspaces => simp [items_spaces hspaces]
  | lexeme gap k s rest hgap hs =>
    rw [items_gap hgap, items_longest hs]
    rintro a ⟨⟩ hk
    obtain rfl : k = .lineSeparator := hk
    obtain ⟨b, run, rfl, hb, -⟩ := isLexeme_lineSeparator_iff.mp hs.isLexeme
    have hblank := isBlank_of_isLineBreak hb
    cases gap with
    | nil => simp [h b rfl] at hblank
    | cons x gap =>
      have hx := h x rfl
      have hspace := hgap x List.mem_cons_self
      simp [isSpace, hx] at hspace

theorem items_break (hc : isLineBreak c) (hrun : ∀ x ∈ run, isBlank x)
    (hrest : ∀ x ∈ rest.head?, isBlank x = false) :
    items (c :: run ++ rest) = ⟨.lineSeparator, none⟩ :: items rest :=
  items_longest (longest_lineSeparator hc hrun hrest)

theorem items_lineSeparator (hc : isLineBreak c) (hrun : ∀ x ∈ run, isBlank x) :
    items (c :: run ++ rest) = Item.foldInto ⟨.lineSeparator, none⟩ (items rest) := by
  obtain ⟨blanks, tail, rfl, hblanks, htail⟩ := exists_run isBlank rest
  have hall : ∀ x ∈ run ++ blanks, isBlank x := List.forall_mem_append.mpr ⟨hrun, hblanks⟩
  have htext : c :: run ++ (blanks ++ tail) = c :: (run ++ blanks) ++ tail := by simp
  rw [htext, items_break hc hall htail]
  obtain ⟨gap, broken, rfl, hgap, hbroken⟩ := exists_run isSpace blanks
  rw [List.append_assoc, items_gap hgap]
  cases broken with
  | nil => exact (foldInto_of_head (head_items htail)).symm
  | cons b broken =>
    obtain ⟨-, hblank⟩ := List.forall_mem_append.mp hblanks
    obtain ⟨hb, hbroken'⟩ := List.forall_mem_cons.mp hblank
    have hbreak : isLineBreak b := by
      have hspace := hbroken b rfl
      simpa [isSpace, hb] using hspace
    rw [items_break hbreak hbroken' htail]
    exact (if_pos ⟨rfl, rfl⟩).symm

theorem foldSeparators_items (cs : List Char) : foldSeparators (items cs) = items cs := by
  induction cs using munch_induction with
  | spaces cs h =>
    rw [items_spaces h]
    rfl
  | lexeme gap k s rest hgap hs ih =>
    rw [items_gap hgap, items_longest hs, foldSeparators, List.foldr_cons, ← foldSeparators, ih]
    by_cases hk : k = .lineSeparator
    · subst hk
      rw [← items_longest hs]
      obtain ⟨c, run, rfl, hc, hrun⟩ := isLexeme_lineSeparator_iff.mp hs.isLexeme
      exact (items_lineSeparator hc hrun).symm
    · exact foldInto_of_kind hk

theorem gap_eq_nil (hgap : ∀ x ∈ gap, isSpace x) (h : ∀ x ∈ (gap ++ rest).head?, isLineBreak x) :
    gap = [] := by
  cases gap with
  | nil => rfl
  | cons x gap =>
    have hbreak := h x rfl
    have hspace := hgap x List.mem_cons_self
    simp [isSpace, hbreak] at hspace

theorem Longest.head_of_swallows (h : Longest k s (s ++ rest)) (hk : Swallows k s) :
    ∀ x ∈ rest.head?, isLineBreak x := by
  intro x hx
  obtain ⟨tail, rfl⟩ := List.head?_eq_some_iff.mp hx
  exact h.lineBreak hk

theorem KeepsFront.refl (cs : List Char) : KeepsFront cs cs :=
  fun _ _ h ↦ h

theorem keepsFront_of_blank (h : ∀ x ∈ new.head?, isBlank x) : KeepsFront old new := by
  intro front hfront hprefix
  cases front with
  | nil => exact List.nil_prefix
  | cons x front =>
    obtain ⟨tail, rfl⟩ := hprefix
    have hx := h x rfl
    simp [hfront x List.mem_cons_self] at hx

theorem keepsFront_of_gap (hgap : ∀ x ∈ gap, isSpace x) (h : gap = [] → KeepsFront old new) :
    KeepsFront old (gap ++ new) := by
  cases gap with
  | nil => exact h rfl
  | cons y gap =>
    refine keepsFront_of_blank fun x hx ↦ ?_
    obtain rfl : y = x := by simpa using hx
    exact (isSpace_iff.mp (hgap y List.mem_cons_self)).1

theorem keepsFront_of_lineBreak (h : ∀ x ∈ new.head?, isLineBreak x) : KeepsFront old new :=
  keepsFront_of_blank fun x hx ↦ isBlank_of_isLineBreak (h x hx)

theorem KeepsFront.append (s : List Char) (h : KeepsFront old new) :
    KeepsFront (s ++ old) (s ++ new) := by
  intro front hfront hprefix
  obtain ⟨tail, htail⟩ := hprefix
  rcases List.append_eq_append_iff.mp htail with ⟨run, rfl, -⟩ | ⟨run, rfl, hrun⟩
  · rw [List.append_assoc]
    exact List.prefix_append front (run ++ old)
  · obtain ⟨-, hblank⟩ := List.forall_mem_append.mp hfront
    exact (List.prefix_append_right_inj s).mpr (h run hblank ⟨tail, hrun.symm⟩)

theorem Longest.of_keepsFront (h : Longest k s (s ++ old)) (hk : k ≠ .lineSeparator)
    (hfront : KeepsFront old new) (hswallows : Swallows k s → ∀ x ∈ new.head?, isLineBreak x) :
    Longest k s (s ++ new) := by
  obtain ⟨hs, hnext, hdots⟩ := longest_append_iff.mp h
  refine longest_append_iff.mpr ⟨hs, fun c hc j hj ↦ ?_, fun hlone hprefix ↦ hdots hlone ?_⟩
  · by_cases hblank : isBlank c
    · rcases hs.before_blank hblank hj with hk' | ⟨hbreak, hsw⟩
      · exact hk hk'
      · simp [hswallows hsw c hc] at hbreak
    · obtain ⟨tail, rfl⟩ := List.head?_eq_some_iff.mp hc
      obtain ⟨tail', rfl⟩ := hfront [c] (by simpa using hblank) ⟨tail, rfl⟩
      exact hnext c rfl j hj
  · have hdot : isBlank '.' = false := by decide
    exact hfront ['.', '.'] (by simp [hdot]) hprefix

end Lexemes
