import Lexemes.Proofs.Longest
import Lexemes.Proofs.Passing
import Lexemes.Scan

namespace Lexemes

open Text

def operatorFits : List Char × Kind → Bool
  | ([c], k) => Kind.ofChar? c == some k
  | ([c, d], k) => (Kind.pairs c).contains (d, k)
  | (s, _) => s == ['.', '.', '.']

theorem operators_fit : ∀ p ∈ operators, operatorFits p := by decide

theorem mem_operators_one {c : Char} {k : Kind} :
    ([c], k) ∈ operators ↔ Kind.ofChar? c = some k := by
  constructor
  · intro h
    simpa [operatorFits] using operators_fit _ h
  · intro h
    unfold Kind.ofChar? at h
    split at h <;> simp_all [operators]

theorem mem_operators_two {c d : Char} {k : Kind} :
    ([c, d], k) ∈ operators ↔ (d, k) ∈ Kind.pairs c := by
  constructor
  · intro h
    simpa [operatorFits] using operators_fit _ h
  · intro h
    unfold Kind.pairs at h
    split at h <;> simp_all [operators]

theorem eq_dots_of_mem_operators {c d e : Char} {cs : List Char} {k : Kind}
    (h : (c :: d :: e :: cs, k) ∈ operators) : c = '.' ∧ d = '.' ∧ e = '.' ∧ cs = [] := by
  simpa [operatorFits] using operators_fit _ h

namespace Cursor

/-- `result` stands behind the longest lexeme that begins with `first`. -/
def Takes (first : Char) (c : Cursor) (result : Kind × Cursor) : Prop :=
  ∃ s rest, c.ahead = s ++ rest ∧ result.2 = c.after s rest ∧
    Longest result.1 (first :: s) (first :: c.ahead)

variable {c : Cursor} {first : Char} {s rest : List Char} {k : Kind}

theorem takes_of (h : c.ahead = s ++ rest) (hs : IsLexeme k (first :: s))
    (hdots : first = '.' → s = [] → ¬ ['.', '.'] <+: rest)
    (hnext : ∀ x ∈ rest.head?, ∀ j, ¬ IsLexeme j (first :: (s ++ [x]))) :
    Takes first c (k, c.after s rest) := by
  refine ⟨s, rest, h, rfl, ?_⟩
  rw [h]
  refine longest_append_iff.mpr ⟨hs, hnext, fun hd ↦ ?_⟩
  obtain ⟨hf, hs⟩ := List.cons.inj hd
  exact hdots hf hs

theorem takes_run (p : Char → Bool) (kind : List Char → Kind) {result : Kind × Cursor}
    (hhead : Head.of first ≠ .other)
    (hlex : ∀ j s, IsLexeme j (first :: s) ↔ j = kind s ∧ ∀ x ∈ s, p x)
    (hres : ∀ s rest, c.ahead = s ++ rest → c.advanceWhile p = c.after s rest →
      result = (kind s, c.after s rest)) : Takes first c result := by
  obtain ⟨s, rest, h, hs, hrest⟩ := exists_run p c.ahead
  rw [hres s rest h (advanceWhile_eq h hs hrest)]
  apply takes_of h ((hlex _ s).mpr ⟨rfl, hs⟩)
  · intro hdot
    subst hdot
    exact absurd rfl hhead
  · intro x hx j hj
    have hp := ((hlex j _).mp hj).2 x (by simp)
    simp [hrest x hx] at hp

theorem takes_lineBreak (hf : isLineBreak first) :
    Takes first c (.lineSeparator, c.advanceWhile isBlank) := by
  refine takes_run isBlank (fun _ ↦ .lineSeparator) ?_ (fun j s ↦ ?_)
    fun s rest _ hadv ↦ ?_
  · simp [head_lineBreak hf]
  · rw [isLexeme_cons_iff]
    simp only [Completes, head_lineBreak hf]
  · rw [hadv]

theorem takes_word (hf : Kind.startsWord first) (hc : c.Spans [first]) : Takes first c c.word := by
  refine takes_run Kind.continuesWord (fun s ↦ wordKind (first :: s)) ?_ (fun j s ↦ ?_)
    fun s rest h hadv ↦ ?_
  · simp [head_word hf]
  · rw [isLexeme_cons_iff]
    simp only [Completes, head_word hf]
  · rw [word, hadv, (hc.after h).lexeme?]
    rfl

theorem takes_number (hf : first.isDigit) (hc : c.Spans [first]) : Takes first c c.number := by
  refine takes_run Kind.continuesNumber (fun s ↦ .ofNumber (first :: s)) ?_ (fun j s ↦ ?_)
    fun s rest h hadv ↦ ?_
  · simp [head_digit hf]
  · rw [isLexeme_cons_iff]
    simp only [Completes, head_digit hf]
  · rw [number, hadv, (hc.after h).lexeme?]
    rfl

theorem takes_string : Takes '"' c c.string := by
  obtain ⟨s, rest, h, hs, hrest⟩ := exists_run Kind.continuesString c.ahead
  have hadv := advanceWhile_eq h hs hrest
  by_cases hq : '"' ∈ rest.head?
  · obtain ⟨rest, rfl⟩ := List.head?_eq_some_iff.mp hq
    have hstring : c.string = (.string, c.after (s ++ ['"']) rest) := by
      have haccept : (c.after s ('"' :: rest)).accept? '"' = some (c.after (s ++ ['"']) rest) :=
        (accept?_eq_some rfl).trans (congrArg some (after_after s ['"']))
      rw [string, hadv, haccept]
    rw [hstring]
    refine takes_of (by simp [h]) (.spelled (.string hs)) (by simp) fun x _ j hj ↦ ?_
    rcases isLexeme_quote_iff.mp hj with ⟨-, body, hb, hj⟩ | ⟨-, hj⟩
    · obtain ⟨rfl, -⟩ : s ++ ['"'] = body ∧ [x] = ['"'] := List.append_inj' hb rfl
      exact not_continuesString (by simp) hj
    · exact not_continuesString (by simp) hj
  · have hstring : c.string = (.illegal, c.after s rest) := by
      rw [string, hadv, accept?_eq_none hq]
    rw [hstring]
    refine takes_of h (.spelled (.unclosed hs)) (by simp) fun x hx j hj ↦ ?_
    rcases isLexeme_quote_iff.mp hj with ⟨-, body, hb, hj⟩ | ⟨-, hj⟩
    · obtain ⟨-, hxq⟩ : s = body ∧ [x] = ['"'] := List.append_inj' hb rfl
      cases hxq
      exact hq hx
    · have := hj x (by simp)
      simp [hrest x hx] at this

theorem takes_slash : Takes '/' c c.slash := by
  by_cases hq : '/' ∈ c.ahead.head?
  · obtain ⟨tail, htail⟩ := List.head?_eq_some_iff.mp hq
    obtain ⟨s, rest, rfl, hs, hrest⟩ := exists_run Kind.continuesComment tail
    have hadv := advanceWhile_eq (c := c.after ['/'] (s ++ rest)) rfl hs hrest
    have hslash : c.slash = (.comment, c.after ('/' :: s) rest) := by
      rw [slash, accept?_eq_some htail]
      exact congrArg _ (hadv.trans (after_after ['/'] s))
    rw [hslash]
    refine takes_of htail (.spelled (.comment hs)) (by simp) fun x hx j hj ↦ ?_
    rcases isLexeme_slash_iff.mp hj with ⟨-, hj⟩ | ⟨-, body, hb, hj⟩
    · cases hj
    · obtain rfl : s ++ [x] = body := by simpa using hb
      have := hj x (by simp)
      simp [hrest x hx] at this
  · have hslash : c.slash = (.divide, c.after [] c.ahead) := by
      rw [slash, accept?_eq_none hq, after_nil rfl]
    rw [hslash]
    refine takes_of rfl (.spelled (.operator (by decide))) (by simp) fun x hx j hj ↦ ?_
    rcases isLexeme_slash_iff.mp hj with ⟨-, hj⟩ | ⟨-, body, hb, hj⟩
    · cases hj
    · cases hb
      exact hq hx

theorem takes_dot : Takes '.' c c.dot := by
  by_cases hdots : ['.', '.'] <+: c.ahead
  · obtain ⟨rest, h⟩ := hdots
    have hdot : c.dot = (.ellipsis, c.after ['.', '.'] rest) := by
      have hfirst : c.accept? '.' = some (c.after ['.'] ('.' :: rest)) := accept?_eq_some h.symm
      have hsecond : (c.after ['.'] ('.' :: rest)).accept? '.' = some (c.after ['.', '.'] rest) :=
        (accept?_eq_some rfl).trans (congrArg some (after_after ['.'] ['.']))
      rw [dot, hfirst, Option.bind_some, hsecond]
    rw [hdot]
    refine takes_of h.symm (isLexeme_dot_iff.mpr (.inr ⟨rfl, rfl⟩)) (by simp) fun x _ j hj ↦ ?_
    simpa using isLexeme_dot_iff.mp hj
  · have hdot : c.dot = (.illegal, c.after [] c.ahead) := by
      have hnone : (c.accept? '.').bind (accept? '.') = none := by
        refine Option.bind_eq_none_iff.mpr fun d hd ↦ accept?_eq_none fun hnext ↦ hdots ?_
        obtain ⟨rest, h, rfl⟩ := eq_of_accept? hd
        obtain ⟨tail, rfl⟩ := List.head?_eq_some_iff.mp hnext
        exact ⟨tail, h.symm⟩
      rw [dot, hnone, after_nil rfl]
    rw [hdot]
    refine takes_of rfl (isLexeme_dot_iff.mpr (.inl ⟨rfl, rfl⟩)) (fun _ _ ↦ hdots) fun x _ j hj ↦ ?_
    simpa using isLexeme_dot_iff.mp hj

theorem takes_operator (hf : Head.of first = .other) (hs : first ≠ '/') (hd : first ≠ '.') :
    Takes first c (c.operator first) := by
  have hlex {j : Kind} {x : Char} {s : List Char} (hj : IsLexeme j (first :: x :: s)) :
      s = [] ∧ (x, j) ∈ Kind.pairs first := by
    rw [isLexeme_cons_iff] at hj
    simp only [Completes, hf] at hj
    rcases hj with ⟨-, h, -⟩ | h | ⟨-, h, -⟩
    · exact absurd h hs
    · cases s with
      | nil => exact ⟨rfl, mem_operators_two.mp h⟩
      | cons y s => exact absurd (eq_dots_of_mem_operators h).1 hd
    · cases h
  unfold operator
  split
  · next found hfound =>
    obtain ⟨⟨x, k⟩, hmem, hx⟩ := List.exists_of_findSome?_eq_some hfound
    obtain ⟨d, haccept, rfl⟩ := Option.map_eq_some_iff.mp hx
    obtain ⟨rest, h, rfl⟩ := eq_of_accept? haccept
    refine takes_of (s := [x]) h (.spelled (.operator (mem_operators_two.mpr hmem)))
      (fun h ↦ absurd h hd) fun y _ j hj ↦ ?_
    cases (hlex hj).1
  · next hnone =>
    have hnext : ∀ x ∈ c.ahead.head?, ∀ j, ¬ IsLexeme j (first :: ([] ++ [x])) := by
      intro x hx j hj
      have := List.findSome?_eq_none_iff.mp hnone _ (hlex hj).2
      rw [Option.map_eq_none_iff] at this
      obtain ⟨rest, h⟩ := List.head?_eq_some_iff.mp hx
      simp [accept?_eq_some h] at this
    have hk : IsLexeme ((Kind.ofChar? first).getD .illegal) [first] := by
      rw [isLexeme_cons_iff]
      simp only [Completes, hf]
      cases hc : Kind.ofChar? first with
      | some k => exact .inr (.inl (mem_operators_one.mpr hc))
      | none => exact .inr (.inr ⟨rfl, trivial, fun j hj ↦ by simp [mem_operators_one.mp hj] at hc⟩)
    have := takes_of (c := c) rfl hk (fun h ↦ absurd h hd) hnext
    rwa [after_nil rfl] at this

theorem takes_complete (hf : isSpace first = false) (hc : c.Spans [first]) :
    Takes first c (c.complete first) := by
  unfold complete
  split_ifs with hl hw hd hq hs hp
  · exact takes_lineBreak hl
  · exact takes_word hw hc
  · exact takes_number hd hc
  · exact hq ▸ takes_string
  · exact hs ▸ takes_slash
  · exact hp ▸ takes_dot
  · refine takes_operator ?_ hs hp
    have hb : isBlank first = false := by simpa [isSpace, hl] using hf
    simp [Head.of, hl, hb, hw, hd, hq]

end Cursor

end Lexemes
