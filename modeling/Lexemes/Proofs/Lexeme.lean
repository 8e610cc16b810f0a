import Lexemes.Kind.Spelling
import Mathlib.Data.String.Basic

namespace Lexemes

open Text

def wordKind (cs : List Char) : Kind :=
  (Kind.ofWord? (String.ofList cs)).getD .identifier

def operators : List (List Char × Kind) :=
  [([':'], .colon), ([':', '='], .leftAssign), (['=', ':'], .rightAssign), (['='], .equals),
    (['=', '>'], .implies), (['!', '='], .notEqual), (['!', '&'], .nand), (['!', '|'], .nor),
    (['!'], .not), (['<'], .lessThan), (['<', '='], .lessEqual), (['>'], .greaterThan),
    (['>', '='], .greaterEqual), (['-', '>'], .maplet), (['-'], .subtract),
    (['.', '.', '.'], .ellipsis), (['/'], .divide), (['+'], .add), (['*'], .multiply),
    (['%'], .modulo), (['^'], .exponent), (['&'], .and), (['|'], .or), (['('], .leftParen),
    ([')'], .rightParen), (['['], .leftBracket), ([']'], .rightBracket), (['{'], .leftBrace),
    (['}'], .rightBrace), ([','], .comma)]

inductive Spelled : Kind → List Char → Prop
  | lineSeparator {c : Char} {run : List Char} (hc : isLineBreak c)
      (hrun : ∀ x ∈ run, isBlank x) : Spelled .lineSeparator (c :: run)
  | comment {body : List Char} (h : ∀ x ∈ body, Kind.continuesComment x) :
      Spelled .comment ('/' :: '/' :: body)
  | word {c : Char} {run : List Char} (hc : Kind.startsWord c)
      (hrun : ∀ x ∈ run, Kind.continuesWord x) : Spelled (wordKind (c :: run)) (c :: run)
  | number {c : Char} {run : List Char} (hc : c.isDigit)
      (hrun : ∀ x ∈ run, Kind.continuesNumber x) : Spelled (.ofNumber (c :: run)) (c :: run)
  | string {body : List Char} (h : ∀ x ∈ body, Kind.continuesString x) :
      Spelled .string ('"' :: (body ++ ['"']))
  | unclosed {body : List Char} (h : ∀ x ∈ body, Kind.continuesString x) :
      Spelled .illegal ('"' :: body)
  | operator {k : Kind} {s : List Char} (h : (s, k) ∈ operators) : Spelled k s

/-- Besides the spellings there are the strays: single characters that no class takes alone. -/
inductive IsLexeme : Kind → List Char → Prop
  | spelled {k : Kind} {s : List Char} (h : Spelled k s) : IsLexeme k s
  | stray {c : Char} (hc : ¬ isBlank c) (h : ∀ k, ¬ Spelled k [c]) : IsLexeme .illegal [c]

section Characters

variable {c : Char}

theorem isBlank_bounds (h : isBlank c) : c.toNat ≤ 32 ∨ 133 ≤ c.toNat := by
  obtain ⟨r, hr, hlow, hhigh⟩ := (blanks.holds_iff c).mp h
  have hbounds : ∀ r ∈ blanks.ranges, r.2 ≤ 32 ∨ 133 ≤ r.1 := by decide
  have hr := hbounds r hr
  omega

theorem isDigit_bounds (h : c.isDigit) : 48 ≤ c.toNat ∧ c.toNat ≤ 57 := by
  simpa [Char.isDigit, UInt32.le_iff_toNat_le] using h

theorem startsWord_bounds (h : Kind.startsWord c) : 65 ≤ c.toNat ∧ c.toNat ≤ 122 := by
  delta Kind.startsWord Char.isAlpha Char.isUpper Char.isLower at h
  simp only [Bool.or_eq_true, Bool.and_eq_true, beq_iff_eq, decide_eq_true_eq, ge_iff_le,
    UInt32.le_iff_toNat_le] at h
  rcases h with rfl | h
  · decide
  · change 65 ≤ c.toNat ∧ c.toNat ≤ 90 ∨ 97 ≤ c.toNat ∧ c.toNat ≤ 122 at h
    omega

end Characters

inductive Head
  | lineBreak | space | word | digit | quote | other
  deriving DecidableEq

def Head.of (c : Char) : Head :=
  if isLineBreak c then .lineBreak
  else if isBlank c then .space
  else if Kind.startsWord c then .word
  else if c.isDigit then .digit
  else if c = '"' then .quote
  else .other

theorem head_lineBreak {c : Char} (h : isLineBreak c) : Head.of c = .lineBreak := by
  simp [Head.of, h]

theorem isBlank_of_startsWord {c : Char} (h : Kind.startsWord c) : isBlank c = false := by
  refine Bool.eq_false_iff.mpr fun hb ↦ ?_
  have := isBlank_bounds hb
  have := startsWord_bounds h
  omega

theorem isBlank_of_isDigit {c : Char} (h : c.isDigit) : isBlank c = false := by
  refine Bool.eq_false_iff.mpr fun hb ↦ ?_
  have := isBlank_bounds hb
  have := isDigit_bounds h
  omega

theorem isLineBreak_of_not_isBlank {c : Char} (h : isBlank c = false) : isLineBreak c = false := by
  refine Bool.eq_false_iff.mpr fun hb ↦ ?_
  simp [isBlank_of_isLineBreak hb] at h

theorem head_word {c : Char} (h : Kind.startsWord c) : Head.of c = .word := by
  have hb := isBlank_of_startsWord h
  simp [Head.of, h, hb, isLineBreak_of_not_isBlank hb]

theorem head_digit {c : Char} (h : c.isDigit) : Head.of c = .digit := by
  have hb := isBlank_of_isDigit h
  have hw : ¬ Kind.startsWord c := by
    intro hw
    have := startsWord_bounds hw
    have := isDigit_bounds h
    omega
  simp [Head.of, h, hb, hw, isLineBreak_of_not_isBlank hb]

theorem head_operators : ∀ p ∈ operators, p.1.head?.map Head.of = some .other := by decide

def Head.Covers (c : Char) : Head → Prop
  | .lineBreak => isLineBreak c
  | .space => isSpace c
  | .word => Kind.startsWord c
  | .digit => c.isDigit
  | .quote => c = '"'
  | .other => isBlank c = false

theorem Head.covers_of (c : Char) : (Head.of c).Covers c := by
  unfold Head.of
  split_ifs with hl hb hw hd hq
  · exact hl
  · simp [Covers, isSpace, hl, hb]
  · exact hw
  · exact hd
  · exact hq
  · simpa [Covers] using hb

/-- What makes a lexeme of kind `k` out of `c`, when `cs` follows. -/
def Completes (k : Kind) (c : Char) (cs : List Char) : Prop :=
  match Head.of c with
  | .lineBreak => k = .lineSeparator ∧ ∀ x ∈ cs, isBlank x
  | .space => False
  | .word => k = wordKind (c :: cs) ∧ ∀ x ∈ cs, Kind.continuesWord x
  | .digit => k = .ofNumber (c :: cs) ∧ ∀ x ∈ cs, Kind.continuesNumber x
  | .quote =>
    k = .string ∧ (∃ body, cs = body ++ ['"'] ∧ ∀ x ∈ body, Kind.continuesString x) ∨
      k = .illegal ∧ ∀ x ∈ cs, Kind.continuesString x
  | .other =>
    k = .comment ∧ c = '/' ∧ (∃ body, cs = '/' :: body ∧ ∀ x ∈ body, Kind.continuesComment x) ∨
      (c :: cs, k) ∈ operators ∨
      k = .illegal ∧ cs = [] ∧ ∀ j, ([c], j) ∉ operators

theorem completes_of_spelled {k : Kind} {c : Char} {cs : List Char} (h : Spelled k (c :: cs)) :
    Completes k c cs := by
  cases h with
  | lineSeparator hc h => simpa [Completes, head_lineBreak hc] using h
  | comment h => exact .inl ⟨rfl, rfl, _, rfl, h⟩
  | word hc h => simpa [Completes, head_word hc] using h
  | number hc h => simpa [Completes, head_digit hc] using h
  | string h => exact .inl ⟨rfl, _, rfl, h⟩
  | unclosed h => exact .inr ⟨rfl, h⟩
  | operator h =>
    have hc : Head.of c = .other := by simpa using head_operators _ h
    simp [Completes, hc, h]

def IsStray (c : Char) : Prop :=
  Head.of c = .other ∧ ∀ k, ([c], k) ∉ operators

theorem spelled_of_completes {k : Kind} {c : Char} {cs : List Char} (h : Completes k c cs) :
    Spelled k (c :: cs) ∨ k = .illegal ∧ cs = [] ∧ IsStray c := by
  have hc := Head.covers_of c
  unfold Completes at h
  cases hh : Head.of c <;> simp only [hh] at h hc
  case lineBreak =>
    obtain ⟨rfl, h⟩ := h
    exact .inl (.lineSeparator hc h)
  case word =>
    obtain ⟨rfl, h⟩ := h
    exact .inl (.word hc h)
  case digit =>
    obtain ⟨rfl, h⟩ := h
    exact .inl (.number hc h)
  case quote =>
    obtain rfl : c = '"' := hc
    rcases h with ⟨rfl, body, rfl, h⟩ | ⟨rfl, h⟩
    · exact .inl (.string h)
    · exact .inl (.unclosed h)
  case other =>
    rcases h with ⟨rfl, rfl, body, rfl, h⟩ | h | ⟨rfl, rfl, h⟩
    · exact .inl (.comment h)
    · exact .inl (.operator h)
    · exact .inr ⟨rfl, rfl, hh, h⟩

theorem isStray_iff {c : Char} : IsStray c ↔ isBlank c = false ∧ ∀ k, ¬ Spelled k [c] := by
  have hc := Head.covers_of c
  constructor
  · intro hstray
    obtain ⟨hh, h⟩ := hstray
    rw [hh] at hc
    refine ⟨hc, fun k hk ↦ ?_⟩
    generalize hs : [c] = s at hk
    cases hk with
    | lineSeparator hl => cases hs; simp [head_lineBreak hl] at hh
    | comment => cases hs
    | word hw => cases hs; simp [head_word hw] at hh
    | number hd => cases hs; simp [head_digit hd] at hh
    | string => simp at hs
    | unclosed => cases hs; exact absurd hh (by decide)
    | operator hk => exact h k (hs ▸ hk)
  · intro hstray
    obtain ⟨hb, h⟩ := hstray
    refine ⟨?_, fun k hk ↦ h k (.operator hk)⟩
    cases hh : Head.of c <;> simp only [hh] at hc
    case lineBreak => simp [isBlank_of_isLineBreak hc] at hb
    case space => simp_all [Head.Covers, isSpace]
    case word => exact absurd (.word hc (by simp)) (h _)
    case digit => exact absurd (.number hc (by simp)) (h _)
    case quote =>
      obtain rfl : c = '"' := hc
      exact absurd (.unclosed (by simp)) (h _)
    case other => rfl

/-- The grammar read from the left: the first character tells what may follow. -/
theorem isLexeme_cons_iff {k : Kind} {c : Char} {cs : List Char} :
    IsLexeme k (c :: cs) ↔ Completes k c cs := by
  constructor
  · intro h
    cases h with
    | spelled h => exact completes_of_spelled h
    | stray hc h =>
      obtain ⟨hh, h⟩ := isStray_iff.mpr ⟨by simpa using hc, h⟩
      simp [Completes, hh, h]
  · intro h
    rcases spelled_of_completes h with h | ⟨rfl, rfl, hs⟩
    · exact .spelled h
    · obtain ⟨hb, h⟩ := isStray_iff.mp hs
      exact .stray (by simp [hb]) h

theorem IsLexeme.ne_nil {k : Kind} {s : List Char} (h : IsLexeme k s) : s ≠ [] := by
  intro hs
  subst hs
  cases h with
  | spelled h =>
    cases h with
    | operator h => simpa using head_operators _ h

def Head.kinds : Head → List Kind
  | .lineBreak => [.lineSeparator]
  | .space => []
  | .word => [.asWord, .fromWord, .importWord, .ofWord, .boolean, .float, .identifier]
  | .digit => [.integer, .float, .illegal]
  | .quote => [.string, .illegal]
  | .other => .comment :: .illegal :: operators.map Prod.snd

theorem wordKind_mem (cs : List Char) : wordKind cs ∈ Head.kinds .word := by
  unfold wordKind Kind.ofWord?
  split <;> simp [Head.kinds]

theorem ofNumber_mem (cs : List Char) : Kind.ofNumber cs ∈ Head.kinds .digit := by
  unfold Kind.ofNumber
  split <;> simp [Head.kinds]

theorem IsLexeme.kind_mem {k : Kind} {c : Char} {cs : List Char} (h : IsLexeme k (c :: cs)) :
    k ∈ (Head.of c).kinds := by
  rw [isLexeme_cons_iff] at h
  cases hh : Head.of c <;> simp only [Completes, hh] at h
  case lineBreak => simp [h.1, Head.kinds]
  case word => exact h.1 ▸ wordKind_mem _
  case digit => exact h.1 ▸ ofNumber_mem _
  case quote => rcases h with ⟨rfl, -⟩ | ⟨rfl, -⟩ <;> simp [Head.kinds]
  case other =>
    rcases h with ⟨rfl, -⟩ | h | ⟨rfl, -⟩
    · exact List.mem_cons_self
    · exact List.mem_cons_of_mem _ (List.mem_cons_of_mem _ (List.mem_map_of_mem h))
    · exact List.mem_cons_of_mem _ List.mem_cons_self

theorem Head.eq_lineBreak {head : Head} (h : .lineSeparator ∈ head.kinds) : head = .lineBreak := by
  cases head <;> revert h <;> decide

theorem Head.eq_other {head : Head} (h : .comment ∈ head.kinds) : head = .other := by
  cases head <;> revert h <;> decide

theorem Head.not_mem_kinds (head : Head) : .endOfInput ∉ head.kinds ∧ .character ∉ head.kinds := by
  cases head <;> decide

theorem isLexeme_lineSeparator_iff {s : List Char} : IsLexeme .lineSeparator s ↔
    ∃ c run, s = c :: run ∧ isLineBreak c ∧ ∀ x ∈ run, isBlank x := by
  constructor
  · intro h
    obtain ⟨c, run, rfl⟩ := List.exists_cons_of_ne_nil h.ne_nil
    have hh := Head.eq_lineBreak h.kind_mem
    have hc := Head.covers_of c
    rw [isLexeme_cons_iff] at h
    simp only [Completes, hh] at h hc
    exact ⟨c, run, rfl, hc, h.2⟩
  · intro h
    obtain ⟨c, run, rfl, hc, h⟩ := h
    exact .spelled (.lineSeparator hc h)

theorem operators_not_comment : ∀ p ∈ operators, p.2 ≠ .comment := by decide

theorem isLexeme_comment_iff {s : List Char} : IsLexeme .comment s ↔
    ∃ body, s = '/' :: '/' :: body ∧ ∀ x ∈ body, Kind.continuesComment x := by
  constructor
  · intro h
    obtain ⟨c, cs, rfl⟩ := List.exists_cons_of_ne_nil h.ne_nil
    have hh := Head.eq_other h.kind_mem
    rw [isLexeme_cons_iff] at h
    simp only [Completes, hh] at h
    rcases h with ⟨-, rfl, body, rfl, h⟩ | h | ⟨h, -⟩
    · exact ⟨body, rfl, h⟩
    · exact absurd rfl (operators_not_comment _ h)
    · cases h
  · intro h
    obtain ⟨body, rfl, h⟩ := h
    exact .spelled (.comment h)

theorem isLexeme_quote_iff {k : Kind} {s : List Char} : IsLexeme k ('"' :: s) ↔
    k = .string ∧ (∃ body, s = body ++ ['"'] ∧ ∀ x ∈ body, Kind.continuesString x) ∨
      k = .illegal ∧ ∀ x ∈ s, Kind.continuesString x :=
  isLexeme_cons_iff

theorem not_continuesString {s : List Char} (hs : '"' ∈ s) : ¬ ∀ x ∈ s, Kind.continuesString x :=
  fun h ↦ absurd (h '"' hs) (by decide)

theorem operators_slash : ∀ p ∈ operators, p.1.head? = some '/' → p = (['/'], .divide) := by decide

theorem isLexeme_slash_iff {k : Kind} {s : List Char} : IsLexeme k ('/' :: s) ↔
    k = .divide ∧ s = [] ∨
      k = .comment ∧ ∃ body, s = '/' :: body ∧ ∀ x ∈ body, Kind.continuesComment x := by
  rw [isLexeme_cons_iff]
  simp only [Completes, show Head.of '/' = .other from rfl, true_and]
  constructor
  · intro h
    rcases h with ⟨rfl, h⟩ | h | ⟨-, -, h⟩
    · exact .inr ⟨rfl, h⟩
    · cases operators_slash _ h rfl
      exact .inl ⟨rfl, rfl⟩
    · exact absurd (by decide) (h .divide)
  · intro h
    rcases h with ⟨rfl, rfl⟩ | ⟨rfl, h⟩
    · exact .inr (.inl (by decide))
    · exact .inl ⟨rfl, h⟩

theorem operators_dot : ∀ p ∈ operators, p.1.head? = some '.' →
    p = (['.', '.', '.'], .ellipsis) := by decide

theorem operators_ne_dot : ∀ p ∈ operators, p.1 ≠ ['.'] := by decide

theorem isLexeme_dot_iff {k : Kind} {s : List Char} : IsLexeme k ('.' :: s) ↔
    k = .illegal ∧ s = [] ∨ k = .ellipsis ∧ s = ['.', '.'] := by
  rw [isLexeme_cons_iff]
  simp only [Completes, show Head.of '.' = .other from rfl]
  constructor
  · intro h
    rcases h with ⟨-, h, -⟩ | h | ⟨rfl, rfl, -⟩
    · exact absurd h (by decide)
    · cases operators_dot _ h rfl
      exact .inr ⟨rfl, rfl⟩
    · exact .inl ⟨rfl, rfl⟩
  · intro h
    rcases h with ⟨rfl, rfl⟩ | ⟨rfl, rfl⟩
    · exact .inr (.inr ⟨rfl, rfl, fun j hj ↦ operators_ne_dot _ hj rfl⟩)
    · exact .inr (.inl (by decide))

theorem IsLexeme.ne_endOfInput {k : Kind} {s : List Char} (h : IsLexeme k s) : k ≠ .endOfInput := by
  intro hk
  subst hk
  obtain ⟨c, cs, rfl⟩ := List.exists_cons_of_ne_nil h.ne_nil
  exact (Head.not_mem_kinds _).1 h.kind_mem

theorem IsLexeme.ne_character {k : Kind} {s : List Char} (h : IsLexeme k s) : k ≠ .character := by
  intro hk
  subst hk
  obtain ⟨c, cs, rfl⟩ := List.exists_cons_of_ne_nil h.ne_nil
  exact (Head.not_mem_kinds _).2 h.kind_mem

end Lexemes
