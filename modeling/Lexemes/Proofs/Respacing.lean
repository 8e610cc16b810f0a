import Lexemes.Proofs.Items

namespace Lexemes

open String Text

/-- Between the item `before`, if there is one, and `a`, white space may change from `old` to `gap`:
it may vanish where a separator or the start or the end of the source keeps the two apart, and none
may come in behind what would take it in. -/
structure Respaces (before : Option Item) (a : Item) (old gap : List Char) : Prop where
  spaces : ∀ x ∈ gap, isSpace x
  kept : gap = [] → old = [] ∨ before = none ∨ before.map Item.kind = some .lineSeparator ∨
    a.kind = .lineSeparator ∨ a.kind = .endOfInput
  closed : ∀ b ∈ before, Swallows b.kind b.chars → gap = []

instance (before : Option Item) (a : Item) (old gap : List Char) :
    Decidable (Respaces before a old gap) :=
  decidable_of_iff (gap.all isSpace ∧ (gap = [] → old = [] ∨ before = none ∨
      before.map Item.kind = some .lineSeparator ∨ a.kind = .lineSeparator ∨
        a.kind = .endOfInput) ∧ ∀ b ∈ before, Swallows b.kind b.chars → gap = [])
    ⟨fun ⟨hspaces, hkept, hclosed⟩ ↦ ⟨List.all_eq_true.mp hspaces, hkept, hclosed⟩,
      fun h ↦ ⟨List.all_eq_true.mpr h.spaces, h.kept, h.closed⟩⟩

/-- The text is spaced anew from what `source` holds from byte `n` on, where the item `before` ends
and the tokens follow. A separator may be spelled in another way. -/
inductive Respaced (source : String) : Option Item → Nat → List Token → List Char → Prop
  | done {before : Option Item} {n : Nat} : Respaced source before n [] []
  | separator {before : Option Item} {n : Nat} {t : Token} {ts : List Token}
      {gap s new : List Char} (ht : t.kind = .lineSeparator)
      (hgap : Respaces before t.item (between source n t.span.start).toList gap)
      (hs : IsLexeme .lineSeparator s) (h : Respaced source (some t.item) t.span.stop ts new) :
      Respaced source before n (t :: ts) (gap ++ (s ++ new))
  | kept {before : Option Item} {n : Nat} {t : Token} {ts : List Token}
      {gap new : List Char} (ht : t.kind ≠ .lineSeparator)
      (hgap : Respaces before t.item (between source n t.span.start).toList gap)
      (h : Respaced source (some t.item) t.span.stop ts new) :
      Respaced source before n (t :: ts) (gap ++ ((t.span.slice source).toList ++ new))

inductive RespacedText : Option Item → List Char → List Char → Prop
  | spaces {before : Option Item} {old gap : List Char} (hold : ∀ x ∈ old, isSpace x)
      (hgap : Respaces before ⟨.endOfInput, none⟩ old gap) : RespacedText before old gap
  | separator {before : Option Item} {old gap s s' rest new : List Char}
      (hold : ∀ x ∈ old, isSpace x) (hgap : Respaces before ⟨.lineSeparator, none⟩ old gap)
      (hs : IsLexeme .lineSeparator s) (hs' : IsLexeme .lineSeparator s')
      (h : RespacedText (some ⟨.lineSeparator, none⟩) rest new) :
      RespacedText before (old ++ (s ++ rest)) (gap ++ (s' ++ new))
  | lexeme {before : Option Item} {old gap s rest new : List Char} {k : Kind}
      (hold : ∀ x ∈ old, isSpace x) (hk : k ≠ .lineSeparator)
      (hgap : Respaces before ⟨k, some (ofList s)⟩ old gap) (hs : Longest k s (s ++ rest))
      (h : RespacedText (some ⟨k, some (ofList s)⟩) rest new) :
      RespacedText before (old ++ (s ++ rest)) (gap ++ (s ++ new))

variable {source : String} {before : Option Item} {a : Item} {l old gap s cs new : List Char}
  {p : Place} {n : Nat}

theorem respacedText_of_tokensAt (h : Respaced source before n (tokensAt p cs) new)
    (hsource : source.toList = l ++ cs) (hp : p.offset = utf8Len l) (hn : n = utf8Len l) :
    RespacedText before cs new := by
  induction cs using munch_induction generalizing p l n before new with
  | spaces old hold =>
    have htext : source.toList = l ++ (old ++ []) := by simpa using hsource
    have hstands := standsFor_end hsource hp
    rw [tokensAt_spaces hold] at h
    cases h with
    | separator ht => cases ht
    | kept ht hgap h =>
      cases h
      rw [hn, between_gap htext hstands, toList_ofList] at hgap
      rw [hstands.slice, toList_ofList, List.append_nil, List.append_nil]
      exact .spaces hold hgap
  | lexeme old k s rest hold hs ih =>
    have hstands := standsFor_next (k := k) hsource hp
    have hbetween := between_gap hsource hstands
    have hrest : source.toList = (l ++ old ++ s) ++ rest := by simpa using hsource
    have hstop : (p.through (old ++ s) rest).offset = utf8Len (l ++ old ++ s) :=
      offset_behind_next hp
    rw [tokensAt_lexeme hold hs] at h
    cases h with
    | separator ht hgap hs' h =>
      obtain rfl : k = .lineSeparator := ht
      rw [hn, hbetween, toList_ofList] at hgap
      exact .separator hold hgap hs.isLexeme hs' (ih h hrest hstop hstands.stop)
    | kept ht hgap h =>
      have hk : k ≠ .lineSeparator := ht
      rw [hn, hbetween, toList_ofList, item_ofLexeme hk hs.isLexeme] at hgap
      rw [item_ofLexeme hk hs.isLexeme] at h
      rw [hstands.slice, toList_ofList]
      exact .lexeme hold hk hgap hs (ih h hrest hstop hstands.stop)

theorem head_lineSeparator (h : IsLexeme .lineSeparator s) :
    ∀ x ∈ (s ++ new).head?, isLineBreak x := by
  obtain ⟨c, run, rfl, hc, -⟩ := isLexeme_lineSeparator_iff.mp h
  rintro x ⟨⟩
  exact hc

theorem RespacedText.head (h : RespacedText (some a) cs new) (ha : Swallows a.kind a.chars)
    (hcs : ∀ x ∈ cs.head?, isLineBreak x) : ∀ x ∈ new.head?, isLineBreak x := by
  cases h with
  | spaces hold hgap =>
    obtain rfl := hgap.closed a rfl ha
    simp
  | separator hold hgap hs hs' =>
    obtain rfl := hgap.closed a rfl ha
    rw [List.nil_append]
    exact head_lineSeparator hs'
  | lexeme hold hk hgap hs =>
    obtain rfl := hgap.closed a rfl ha
    obtain rfl := gap_eq_nil hold hcs
    rw [List.nil_append, List.head?_append_of_ne_nil _ hs.isLexeme.ne_nil] at hcs ⊢
    exact hcs

theorem RespacedText.keepsFront (h : RespacedText before cs new) (hsome : before ≠ none)
    (hsep : before.map Item.kind ≠ some .lineSeparator) : KeepsFront cs new := by
  induction h with
  | @spaces before old gap hold hgap =>
    refine keepsFront_of_blank fun x hx ↦ ?_
    exact (isSpace_iff.mp (hgap.spaces x (List.mem_of_mem_head? hx))).1
  | separator hold hgap hs hs' =>
    exact keepsFront_of_gap hgap.spaces fun _ ↦ keepsFront_of_lineBreak (head_lineSeparator hs')
  | @lexeme before old gap s rest new k hold hk hgap hs h ih =>
    refine keepsFront_of_gap hgap.spaces fun hnil ↦ ?_
    have hold' : old = [] := by
      have hends := hs.isLexeme.ne_endOfInput
      simpa [hsome, hsep, hk, hends] using hgap.kept hnil
    subst hold'
    exact (ih (by simp) (by simpa using hk)).append s

theorem RespacedText.items_eq (h : RespacedText before cs new) : items new = items cs := by
  induction h with
  | spaces hold hgap => rw [items_spaces hold, items_spaces hgap.spaces]
  | separator hold hgap hs hs' h ih =>
    obtain ⟨c, run, rfl, hc, hrun⟩ := isLexeme_lineSeparator_iff.mp hs
    obtain ⟨c', run', rfl, hc', hrun'⟩ := isLexeme_lineSeparator_iff.mp hs'
    rw [items_gap hold, items_gap hgap.spaces, items_lineSeparator hc hrun,
      items_lineSeparator hc' hrun', ih]
  | @lexeme before old gap s rest new k hold hk hgap hs h ih =>
    have hs' : Longest k s (s ++ new) := by
      refine hs.of_keepsFront hk (h.keepsFront (by simp) (by simpa using hk)) fun hsw ↦ ?_
      exact h.head (by simpa [Item.chars] using hsw) (hs.head_of_swallows hsw)
    rw [items_gap hold, items_gap hgap.spaces, items_lexeme hk hs, items_lexeme hk hs', ih]

/-- Spacing a source anew changes no kind and no text. -/
theorem tokens_respaced (source respaced : String)
    (h : Respaced source none 0 (tokens source) respaced.toList) :
    (tokens respaced).map Token.item = (tokens source).map Token.item := by
  have htext : RespacedText none source.toList respaced.toList :=
    respacedText_of_tokensAt (l := []) h (List.nil_append _).symm rfl rfl
  exact htext.items_eq

/-- The dots stay two tokens, the comment moves into its line, and the separator grows. -/
theorem tokens_respaced_dots :
    let source := "a ..\r\n// b"
    let respaced := "\ta\u3000.. \n \r // b"
    Respaced source none 0 (tokens source) respaced.toList ∧
      (tokens respaced).map Token.item = (tokens source).map Token.item := by
  intro source respaced
  let slice (i j : Nat) : List Char := (Span.slice ⟨i, j⟩ source).toList
  have htokens : tokens source = [⟨.identifier, some "a", ⟨0, 1⟩, 1, 1⟩,
      ⟨.illegal, some ".", ⟨2, 3⟩, 1, 3⟩, ⟨.illegal, some ".", ⟨3, 4⟩, 1, 4⟩,
      ⟨.lineSeparator, none, ⟨4, 6⟩, 1, 5⟩, ⟨.comment, some "// b", ⟨6, 10⟩, 2, 1⟩,
      ⟨.endOfInput, none, ⟨10, 10⟩, 2, 5⟩] := by decide +kernel
  have htext : respaced.toList = ['\t'] ++ (slice 0 1 ++ (['\u3000'] ++ (slice 2 3 ++ ([] ++
      (slice 3 4 ++ ([' '] ++ (['\n', ' ', '\r'] ++ ([' '] ++ (slice 6 10 ++ ([] ++
        (slice 10 10 ++ []))))))))))) := by decide +kernel
  have hseparator : IsLexeme .lineSeparator ['\n', ' ', '\r'] :=
    isLexeme_lineSeparator_iff.mpr
      ⟨'\n', [' ', '\r'], rfl, by decide, List.all_eq_true.mp (by decide)⟩
  have hrespaced : Respaced source none 0 (tokens source) respaced.toList := by
    rw [htokens, htext]
    refine .kept (by decide) (by decide +kernel) <| .kept (by decide) (by decide +kernel) <|
      .kept (by decide) (by decide +kernel) <| .separator rfl (by decide +kernel) hseparator <|
      .kept (by decide) (by decide +kernel) <| .kept (by decide) (by decide +kernel) .done
  exact ⟨hrespaced, tokens_respaced source respaced hrespaced⟩

end Lexemes
