import Lexemes.Proofs.Lexeme

namespace Lexemes

open Text

variable {j k : Kind} {s t text rest : List Char}

theorem operators_kind : ∀ p ∈ operators, ∀ q ∈ operators, p.1 = q.1 → p.2 = q.2 := by decide

theorem operators_length : ∀ p ∈ operators, p.1.length ≤ 2 ∨ p.1 = ['.', '.', '.'] := by decide

theorem slashes_not_operator : ∀ p ∈ operators, ¬ ['/', '/'] <+: p.1 := by decide

theorem IsLexeme.kind_unique (hj : IsLexeme j s) (hk : IsLexeme k s) : j = k := by
  cases s with
  | nil => exact absurd rfl hj.ne_nil
  | cons c cs =>
    rw [isLexeme_cons_iff] at hj hk
    cases hh : Head.of c <;> simp only [Completes, hh] at hj hk
    case lineBreak | word | digit => exact hj.1.trans hk.1.symm
    case quote =>
      rcases hj with ⟨rfl, body, rfl, -⟩ | ⟨rfl, hj⟩
      · rcases hk with ⟨rfl, -⟩ | ⟨rfl, hk⟩
        · rfl
        · exact absurd hk (not_continuesString (by simp))
      · rcases hk with ⟨rfl, body, rfl, -⟩ | ⟨rfl, -⟩
        · exact absurd hj (not_continuesString (by simp))
        · rfl
    case other =>
      rcases hj with ⟨rfl, rfl, body, rfl, -⟩ | hj | ⟨rfl, rfl, hj⟩
      · rcases hk with ⟨rfl, -⟩ | hk | ⟨-, hk, -⟩
        · rfl
        · exact absurd (by simp) (slashes_not_operator _ hk)
        · cases hk
      · rcases hk with ⟨rfl, rfl, body, rfl, -⟩ | hk | ⟨rfl, rfl, hk⟩
        · exact absurd (by simp) (slashes_not_operator _ hj)
        · exact operators_kind _ hj _ hk rfl
        · exact absurd hj (hk j)
      · rcases hk with ⟨-, -, body, hk, -⟩ | hk | ⟨rfl, -⟩
        · cases hk
        · exact absurd hk (hj k)
        · rfl

theorem operator_extends {c : Char} (hs : s ≠ []) (h : (s ++ c :: t, k) ∈ operators) :
    t = [] ∨ s = ['.'] ∧ c = '.' ∧ t = ['.'] := by
  have hpos := List.length_pos_iff.mpr hs
  rcases operators_length _ h with hl | hl
  · left
    simp only [List.length_append, List.length_cons] at hl
    exact List.length_eq_zero_iff.mp (by omega)
  · match s, hs with
    | [x], _ => simp_all
    | [x, y], _ => simp_all
    | x :: y :: z :: _, _ => simp at hl

theorem run_extends {p : Char → Bool} {c : Char} (h : ∀ y ∈ s ++ c :: t, p y) :
    ∀ y ∈ s ++ [c], p y := by
  intro y hy
  refine h y ?_
  simp only [List.mem_append, List.mem_cons, List.not_mem_nil, or_false] at hy ⊢
  exact hy.imp_right .inl

/-- Whatever continues `s` to a lexeme does so by its first character already. -/
theorem IsLexeme.extends {c : Char} (hs : s ≠ []) (h : IsLexeme k (s ++ c :: t)) :
    (∃ j, IsLexeme j (s ++ [c])) ∨ s = ['.'] ∧ c = '.' ∧ t = ['.'] := by
  obtain ⟨x, s, rfl⟩ := List.exists_cons_of_ne_nil hs
  simp only [List.cons_append, isLexeme_cons_iff] at h ⊢
  cases hh : Head.of x <;> simp only [Completes, hh] at h ⊢
  case lineBreak | word | digit => exact .inl ⟨_, rfl, run_extends h.2⟩
  case quote =>
    left
    rcases h with ⟨rfl, body, hb, h⟩ | ⟨rfl, h⟩
    · rcases List.eq_nil_or_concat t with rfl | ⟨t, y, rfl⟩
      · exact ⟨_, .inl ⟨rfl, body, hb, h⟩⟩
      · obtain ⟨rfl, -⟩ : s ++ c :: t = body ∧ [y] = ['"'] :=
          List.append_inj' (by simpa using hb) rfl
        exact ⟨_, .inr ⟨rfl, run_extends h⟩⟩
    · exact ⟨_, .inr ⟨rfl, run_extends h⟩⟩
  case other =>
    rcases h with ⟨rfl, rfl, body, hb, h⟩ | h | ⟨rfl, h, -⟩
    · refine .inl ⟨_, .inl ⟨rfl, rfl, ?_⟩⟩
      cases s with
      | nil => exact ⟨[], by simp_all, by simp⟩
      | cons y s =>
        obtain ⟨rfl, rfl⟩ : y = '/' ∧ s ++ c :: t = body := by simpa using hb
        exact ⟨_, rfl, run_extends h⟩
    · rcases operator_extends hs h with rfl | hd
      · exact .inl ⟨_, .inr (.inl h)⟩
      · exact .inr hd
    · simp at h

/-- `s` is the longest lexeme at the front of `text`. -/
structure Longest (k : Kind) (s text : List Char) : Prop where
  isLexeme : IsLexeme k s
  front : s <+: text
  length_le : ∀ j t, IsLexeme j t → t <+: text → t.length ≤ s.length

theorem Longest.unique (hs : Longest k s text) (ht : Longest j t text) : k = j ∧ s = t := by
  have hl : s.length = t.length :=
    Nat.le_antisymm (ht.length_le k s hs.isLexeme hs.front) (hs.length_le j t ht.isLexeme ht.front)
  obtain rfl : s = t := (List.prefix_of_prefix_length_le hs.front ht.front hl.le).eq_of_length hl
  exact ⟨hs.isLexeme.kind_unique ht.isLexeme, rfl⟩

theorem longest_append_iff : Longest k s (s ++ rest) ↔ IsLexeme k s ∧
    (∀ c ∈ rest.head?, ∀ j, ¬ IsLexeme j (s ++ [c])) ∧ (s = ['.'] → ¬ ['.', '.'] <+: rest) := by
  constructor
  · intro h
    refine ⟨h.isLexeme, fun c hc j hj ↦ ?_, ?_⟩
    · obtain ⟨tail, rfl⟩ := List.head?_eq_some_iff.mp hc
      have := h.length_le j (s ++ [c]) hj ⟨tail, by simp⟩
      simp at this
    · intro hs hdots
      obtain ⟨tail, rfl⟩ := hdots
      subst hs
      have hlen := h.length_le .ellipsis ['.', '.', '.'] (.spelled (.operator (by decide)))
        ⟨tail, rfl⟩
      simp at hlen
  · intro h
    obtain ⟨hs, hnext, hdots⟩ := h
    refine ⟨hs, List.prefix_append s rest, fun j t ht hfront ↦ ?_⟩
    by_contra hlt
    obtain ⟨tail, rfl⟩ : s <+: t :=
      List.prefix_of_prefix_length_le (List.prefix_append s rest) hfront (by omega)
    obtain ⟨c, tail, rfl⟩ : ∃ c u, tail = c :: u := by
      refine List.exists_cons_of_ne_nil ?_
      intro htail
      subst htail
      simp at hlt
    obtain ⟨rest, rfl⟩ := (List.prefix_append_right_inj s).mp hfront
    rcases ht.extends hs.ne_nil with ⟨i, hi⟩ | ⟨rfl, rfl, rfl⟩
    · exact hnext c (by simp) i hi
    · exact hdots rfl ⟨rest, rfl⟩

theorem Longest.cut (h : Longest k s (s ++ (rest ++ t))) : Longest k s (s ++ rest) := by
  refine ⟨h.isLexeme, List.prefix_append s rest, fun j u hu hfront ↦ h.length_le j u hu ?_⟩
  rw [← List.append_assoc]
  exact hfront.trans (List.prefix_append _ t)

theorem longest_self (h : IsLexeme k s) : Longest k s s :=
  ⟨h, List.prefix_rfl, fun _ _ _ hfront ↦ hfront.length_le⟩

/-- Lexemes that take in all that follows them on their line. -/
def Swallows (k : Kind) (s : List Char) : Prop :=
  k = .comment ∨ k = .illegal ∧ s.head? = some '"'

instance (k : Kind) (s : List Char) : Decidable (Swallows k s) :=
  inferInstanceAs (Decidable (_ ∨ _))

theorem continuesWord_blank {c : Char} (hc : isBlank c) : Kind.continuesWord c = false := by
  refine Bool.eq_false_iff.mpr fun h ↦ ?_
  have hw : Kind.startsWord c ∨ c.isDigit := by
    simpa [Kind.continuesWord, Kind.startsWord, Char.isAlphanum, or_assoc] using h
  rcases hw with hw | hd
  · simp [isBlank_of_startsWord hw] at hc
  · simp [isBlank_of_isDigit hd] at hc

theorem continuesNumber_blank {c : Char} (hc : isBlank c) : Kind.continuesNumber c = false := by
  refine Bool.eq_false_iff.mpr fun h ↦ ?_
  simp only [Kind.continuesNumber, Bool.or_eq_true, beq_iff_eq] at h
  rcases h with (rfl | rfl) | hd
  · exact absurd hc (by decide)
  · exact absurd hc (by decide)
  · simp [isBlank_of_isDigit hd] at hc

theorem operators_not_blank : ∀ p ∈ operators, p.1.all fun x ↦ !isBlank x := by decide

theorem IsLexeme.before_blank {c : Char} (hs : IsLexeme k s) (hc : isBlank c)
    (h : IsLexeme j (s ++ [c])) :
    k = .lineSeparator ∨ isLineBreak c = false ∧ Swallows k s := by
  obtain ⟨x, s, rfl⟩ := List.exists_cons_of_ne_nil hs.ne_nil
  have hmem : c ∈ s ++ [c] := by simp
  simp only [List.cons_append, isLexeme_cons_iff] at hs h
  cases hh : Head.of x <;> simp only [Completes, hh] at hs h
  case lineBreak => exact .inl hs.1
  case word => simpa [continuesWord_blank hc] using h.2 c hmem
  case digit => simpa [continuesNumber_blank hc] using h.2 c hmem
  case quote =>
    obtain rfl : x = '"' := by simpa [hh, Head.Covers] using Head.covers_of x
    rcases h with ⟨-, body, hb, -⟩ | ⟨-, h⟩
    · obtain ⟨-, hq⟩ : s = body ∧ [c] = ['"'] := List.append_inj' hb rfl
      cases hq
      exact absurd hc (by decide)
    · rcases hs with ⟨-, body, rfl, -⟩ | ⟨rfl, -⟩
      · exact absurd h (not_continuesString (by simp))
      · have := h c hmem
        simp_all [Kind.continuesString, Swallows]
  case other =>
    rcases h with ⟨-, rfl, body, hb, h⟩ | h | ⟨-, h, -⟩
    · cases s with
      | nil =>
        cases hb
        exact absurd hc (by decide)
      | cons y s =>
        obtain ⟨rfl, rfl⟩ : y = '/' ∧ s ++ [c] = body := by simpa using hb
        rcases hs with ⟨rfl, -⟩ | hs | ⟨-, hs, -⟩
        · have := h c (by simp)
          simp_all [Kind.continuesComment, Swallows]
        · exact absurd (by simp) (slashes_not_operator _ hs)
        · cases hs
    · have hall := List.all_eq_true.mp (operators_not_blank _ h) c (by simp)
      simp [hc] at hall
    · simp at h

theorem longest_before_blank {c : Char} (hs : IsLexeme k s) (hk : k ≠ .lineSeparator)
    (hc : isBlank c) (hsw : Swallows k s → isLineBreak c) : Longest k s (s ++ c :: rest) := by
  refine longest_append_iff.mpr ⟨hs, fun d hd j hj ↦ ?_, ?_⟩
  · cases hd
    rcases hs.before_blank hc hj with h | ⟨hl, h⟩
    · exact hk h
    · simp [hsw h] at hl
  · intro _ hdots
    obtain ⟨tail, ht⟩ := hdots
    cases ht
    exact absurd hc (by decide)

theorem Longest.before_lineBreak {b : Char} (h : Longest k s (s ++ rest)) (hk : k ≠ .lineSeparator)
    (hb : isLineBreak b) : Longest k s (s ++ (rest ++ b :: t)) := by
  cases rest with
  | nil => exact longest_before_blank h.isLexeme hk (isBlank_of_isLineBreak hb) fun _ ↦ hb
  | cons c rest =>
    obtain ⟨hs, hnext, hdots⟩ := longest_append_iff.mp h
    refine longest_append_iff.mpr ⟨hs, hnext, ?_⟩
    intro hs' hfront
    apply hdots hs'
    have hdot : b ≠ '.' := by
      intro he
      subst he
      exact absurd hb (by decide)
    cases rest with
    | nil => simp [hdot.symm] at hfront
    | cons d rest =>
      obtain ⟨rfl, rfl⟩ : '.' = c ∧ '.' = d := by simpa using hfront
      simp

theorem longest_lineSeparator {b : Char} {run : List Char} (hb : isLineBreak b)
    (hrun : ∀ x ∈ run, isBlank x) (hrest : ∀ x ∈ rest.head?, isBlank x = false) :
    Longest .lineSeparator (b :: run) ((b :: run) ++ rest) := by
  refine longest_append_iff.mpr ⟨isLexeme_lineSeparator_iff.mpr ⟨b, run, rfl, hb, hrun⟩, ?_, ?_⟩
  · intro c hc j hj
    rw [List.cons_append, isLexeme_cons_iff] at hj
    simp only [Completes, Head.of, hb, if_true] at hj
    have hblank : isBlank c := hj.2 c (by simp)
    simp [hrest c hc] at hblank
  · intro hs
    cases hs
    exact absurd hb (by decide)

theorem Longest.not_blank {c : Char} (h : Longest .lineSeparator s (s ++ c :: rest)) :
    isBlank c = false := by
  refine Bool.eq_false_iff.mpr fun hc ↦ ?_
  obtain ⟨hs, hnext, -⟩ := longest_append_iff.mp h
  obtain ⟨b, run, rfl, hb, hrun⟩ := isLexeme_lineSeparator_iff.mp hs
  refine hnext c rfl .lineSeparator (isLexeme_lineSeparator_iff.mpr ⟨b, run ++ [c], rfl, hb, ?_⟩)
  simpa [or_imp, forall_and, hc] using hrun

theorem Longest.lineBreak {c : Char} (h : Longest k s (s ++ c :: rest)) (hk : Swallows k s) :
    isLineBreak c := by
  obtain ⟨hs, hnext, -⟩ := longest_append_iff.mp h
  by_contra hc
  rw [Bool.not_eq_true] at hc
  rcases hk with rfl | ⟨rfl, hq⟩
  · obtain ⟨body, rfl, hbody⟩ := isLexeme_comment_iff.mp hs
    refine hnext c rfl .comment (isLexeme_comment_iff.mpr ⟨body ++ [c], rfl, ?_⟩)
    simpa [or_imp, forall_and, Kind.continuesComment, hc] using hbody
  · obtain ⟨body, rfl⟩ := List.head?_eq_some_iff.mp hq
    have hbody : ∀ x ∈ body, Kind.continuesString x := by
      simpa using isLexeme_quote_iff.mp hs
    by_cases hcq : c = '"'
    · subst hcq
      exact hnext '"' rfl .string (.spelled (.string hbody))
    · refine hnext c rfl .illegal (isLexeme_quote_iff.mpr (.inr ⟨rfl, ?_⟩))
      simpa [or_imp, forall_and, Kind.continuesString, hc, hcq] using hbody

end Lexemes
