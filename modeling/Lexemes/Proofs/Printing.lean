import Lexemes.Proofs.Tokens

namespace Lexemes

open String Text

structure Item where
  kind : Kind
  text : Option String
  deriving DecidableEq

def Token.item (t : Token) : Item :=
  ⟨t.kind, t.text⟩

namespace Item

def chars (a : Item) : List Char :=
  (a.text.getD "").toList

inductive Valid : Item → Prop
  | lineSeparator : Valid ⟨.lineSeparator, none⟩
  | lexeme {k : Kind} {s : String} (hk : k ≠ .lineSeparator) (hs : IsLexeme k s.toList) :
      Valid ⟨k, some s⟩

/-- Separators are not adjacent, and what takes in the rest of its line is at the end of it. -/
structure Precedes (a b : Item) : Prop where
  separator : a.kind = .lineSeparator → b.kind ≠ .lineSeparator
  swallows : Swallows a.kind a.chars → b.kind = .lineSeparator ∨ b.kind = .endOfInput

instance (a b : Item) : Decidable (a.Precedes b) :=
  decidable_of_iff _ ⟨fun h ↦ ⟨h.1, h.2⟩, fun h ↦ And.intro h.separator h.swallows⟩

def print : Item → List Char
  | ⟨_, some s⟩ => s.toList
  | ⟨.lineSeparator, none⟩ => ['\n']
  | ⟨_, none⟩ => []

def spacing (a : Item) : Option Item → List Char
  | some b => if a.text.isSome ∧ b.text.isSome then [' '] else []
  | none => []

end Item

structure WellFormed (w : List Item) : Prop where
  closed : ∃ body, w = body ++ [⟨.endOfInput, none⟩] ∧ ∀ a ∈ body, a.Valid
  chain : w.IsChain Item.Precedes

def printed : List Item → List Char
  | [] => []
  | a :: w => a.print ++ (a.spacing w.head? ++ printed w)

variable {a b : Item} {w : List Item} {j k : Kind} {s t gap rest : List Char} {p : Place}

theorem wellFormed_end : WellFormed [⟨.endOfInput, none⟩] :=
  ⟨⟨[], rfl, by simp⟩, .singleton _⟩

theorem wellFormed_cons_iff : WellFormed (a :: b :: w) ↔
    a.Valid ∧ a.Precedes b ∧ WellFormed (b :: w) := by
  constructor
  · intro h
    obtain ⟨hab, hchain⟩ := List.isChain_cons_cons.mp h.chain
    obtain ⟨body, hbody, hvalid⟩ := h.closed
    cases body with
    | nil => simp at hbody
    | cons c body =>
      obtain ⟨rfl, htail⟩ := List.cons.inj hbody
      obtain ⟨ha, hvalid⟩ := List.forall_mem_cons.mp hvalid
      exact ⟨ha, hab, ⟨body, htail, hvalid⟩, hchain⟩
  · intro h
    obtain ⟨ha, hab, hw⟩ := h
    obtain ⟨body, hbody, hvalid⟩ := hw.closed
    refine ⟨⟨a :: body, ?_, List.forall_mem_cons.mpr ⟨ha, hvalid⟩⟩, .cons_cons hab hw.chain⟩
    rw [hbody, List.cons_append]

theorem WellFormed.head (h : WellFormed (a :: w)) :
    a = ⟨.endOfInput, none⟩ ∧ w = [] ∨ a.Valid := by
  obtain ⟨body, hbody, hvalid⟩ := h.closed
  cases body with
  | nil => exact .inl (by simpa using hbody)
  | cons c body =>
    obtain ⟨rfl, -⟩ := List.cons.inj hbody
    exact .inr (hvalid a List.mem_cons_self)

theorem item_ofLexeme (hk : k ≠ .lineSeparator) (hs : IsLexeme k s) :
    (Token.ofLexeme p k s).item = ⟨k, some (ofList s)⟩ := by
  have htext := text_ofLexeme (k := k) (s := s) p
  rw [if_neg (by simp [hk, hs.ne_endOfInput])] at htext
  simp only [Token.item, htext]
  rfl

theorem valid_ofLexeme (hs : IsLexeme k s) : (Token.ofLexeme p k s).item.Valid := by
  by_cases hk : k = .lineSeparator
  · subst hk
    exact .lineSeparator
  · rw [item_ofLexeme hk hs]
    exact .lexeme hk (by simpa using hs)

theorem swallows_ofLexeme (hs : IsLexeme k s)
    (h : Swallows k (Token.ofLexeme p k s).item.chars) : Swallows k s := by
  by_cases hk : k = .lineSeparator
  · subst hk
    rcases h with h | h
    · cases h
    · cases h.1
  · rw [item_ofLexeme hk hs] at h
    simpa [Item.chars] using h

theorem precedes_ofLexeme {q : Place} (hs : Longest k s (s ++ (gap ++ (t ++ rest))))
    (hgap : ∀ x ∈ gap, isSpace x) (ht : IsLexeme j t) :
    (Token.ofLexeme p k s).item.Precedes (Token.ofLexeme q j t).item := by
  obtain ⟨x, t, rfl⟩ := List.exists_cons_of_ne_nil ht.ne_nil
  constructor
  case separator =>
    intro hk hj
    obtain rfl : k = .lineSeparator := hk
    obtain rfl : j = .lineSeparator := hj
    obtain ⟨c, run, hc, hbreak, -⟩ := isLexeme_lineSeparator_iff.mp ht
    cases hc
    cases gap with
    | nil =>
      have hx := hs.not_blank
      simp [isBlank_of_isLineBreak hbreak] at hx
    | cons y gap =>
      have hy := hs.not_blank
      have hspace := hgap y List.mem_cons_self
      simp [isSpace, hy] at hspace
  case swallows =>
    intro h
    have hk := swallows_ofLexeme hs.isLexeme h
    left
    cases gap with
    | nil => exact ht.eq_lineSeparator (hs.lineBreak hk)
    | cons y gap =>
      have hy := hs.lineBreak hk
      have hspace := hgap y List.mem_cons_self
      simp [isSpace, hy] at hspace

theorem precedes_end : a.Precedes ⟨.endOfInput, none⟩ where
  separator _ := by decide
  swallows _ := .inr rfl

theorem wellFormed_tokensAt (p : Place) (cs : List Char) :
    WellFormed ((tokensAt p cs).map Token.item) := by
  induction cs using munch_induction generalizing p with
  | spaces cs h =>
    rw [tokensAt_spaces h]
    exact wellFormed_end
  | lexeme gap k s rest hgap hs ih =>
    have hvalid := valid_ofLexeme (p := p.through gap (s ++ rest)) hs.isLexeme
    have hrest := ih (p.through (gap ++ s) rest)
    rw [tokensAt_lexeme hgap hs]
    cases rest using munch_induction with
    | spaces rest h =>
      rw [tokensAt_spaces h] at hrest ⊢
      exact wellFormed_cons_iff.mpr ⟨hvalid, precedes_end, hrest⟩
    | lexeme skip j t rest hskip ht =>
      rw [tokensAt_lexeme hskip ht] at hrest ⊢
      exact wellFormed_cons_iff.mpr ⟨hvalid, precedes_ofLexeme hs hskip ht.isLexeme, hrest⟩

theorem WellFormed.eq_end (h : WellFormed [a]) : a = ⟨.endOfInput, none⟩ := by
  obtain ⟨body, hbody, -⟩ := h.closed
  cases body with
  | nil => exact (List.cons.inj hbody).1
  | cons c body => simp at hbody

theorem spacing_isSpace (a : Item) (next : Option Item) : ∀ x ∈ a.spacing next, isSpace x := by
  intro x hx
  unfold Item.spacing at hx
  split at hx
  · split_ifs at hx
    · rw [List.mem_singleton.mp hx]
      decide
    · cases hx
  · cases hx

theorem printed_lineSeparator :
    printed (⟨.lineSeparator, none⟩ :: b :: w) = ['\n'] ++ printed (b :: w) := rfl

theorem printed_lexeme {s : String} : printed (⟨k, some s⟩ :: b :: w) =
    s.toList ++ (Item.spacing ⟨k, some s⟩ (some b) ++ printed (b :: w)) := rfl

theorem longest_print {s : String} (h : WellFormed (⟨k, some s⟩ :: b :: w)) :
    Longest k s.toList (s.toList ++ (Item.spacing ⟨k, some s⟩ (some b) ++ printed (b :: w))) := by
  obtain ⟨hvalid, hprec, htail⟩ := wellFormed_cons_iff.mp h
  cases hvalid with
  | lexeme hk hs =>
    rcases htail.head with ⟨rfl, rfl⟩ | hb
    · simpa [Item.spacing, printed, Item.print] using longest_self hs
    · cases hb with
      | lineSeparator =>
        have hspacing : Item.spacing ⟨k, some s⟩ (some ⟨.lineSeparator, none⟩) = [] := rfl
        rw [hspacing]
        exact longest_before_blank hs hk (by decide) fun _ ↦ by decide
      | @lexeme j t hj ht =>
        have hspacing : Item.spacing ⟨k, some s⟩ (some ⟨j, some t⟩) = [' '] := rfl
        rw [hspacing]
        refine longest_before_blank hs hk (by decide) fun hswallows ↦ ?_
        rcases hprec.swallows hswallows with h | h
        · exact absurd h hj
        · exact absurd h ht.ne_endOfInput

theorem longest_print_lineSeparator (h : WellFormed (⟨.lineSeparator, none⟩ :: b :: w)) :
    Longest .lineSeparator ['\n'] (['\n'] ++ printed (b :: w)) := by
  obtain ⟨-, hprec, htail⟩ := wellFormed_cons_iff.mp h
  refine longest_lineSeparator (by decide) (by simp) fun x hx ↦ ?_
  rcases htail.head with ⟨rfl, rfl⟩ | hb
  · cases hx
  · cases hb with
    | lineSeparator => exact absurd rfl (hprec.separator rfl)
    | @lexeme j t hj ht =>
      obtain ⟨y, cs, ht'⟩ := List.exists_cons_of_ne_nil ht.ne_nil
      rw [ht'] at ht
      obtain rfl : y = x := by simpa [printed, Item.print, ht'] using hx
      exact ht.not_isBlank hj

theorem item_tokensAt_printed (h : WellFormed w) (p : Place) :
    (tokensAt p (printed w)).map Token.item = w := by
  induction w generalizing p with
  | nil =>
    obtain ⟨body, hbody, -⟩ := h.closed
    simp at hbody
  | cons a w ih =>
    cases w with
    | nil =>
      have hend : tokensAt p [] = [.ofLexeme p .endOfInput []] := tokensAt_spaces (by simp)
      rw [h.eq_end]
      exact congrArg (List.map Token.item) hend
    | cons b w =>
      obtain ⟨hvalid, -, htail⟩ := wellFormed_cons_iff.mp h
      cases hvalid with
      | lineSeparator =>
        rw [printed_lineSeparator, tokensAt_longest (longest_print_lineSeparator h), List.map_cons,
          ih htail]
        rfl
      | @lexeme k s hk hs =>
        rw [printed_lexeme, tokensAt_longest (longest_print h), List.map_cons,
          tokensAt_gap (spacing_isSpace _ _), ih htail, item_ofLexeme hk hs, ofList_toList]

/-- What is illegal: a number with two points, a string left open, and a character that nothing
begins with. The point begins the ellipsis, but alone it is illegal too. -/
inductive IllegalSpelling : List Char → Prop
  | number {c : Char} {run : List Char} (hc : c.isDigit) (hrun : ∀ x ∈ run, Kind.continuesNumber x)
      (hpoints : 2 ≤ (c :: run).count '.') : IllegalSpelling (c :: run)
  | unclosed {body : List Char} (h : ∀ x ∈ body, Kind.continuesString x) :
      IllegalSpelling ('"' :: body)
  | single {c : Char} (hc : isBlank c = false)
      (h : (∀ k s, ¬ Spelled k (c :: s)) ∨ c = '.' ∨ c = '\'') : IllegalSpelling [c]

theorem operators_begin : ∀ p ∈ operators,
    p.1.head? = some '.' ∨ p.1.take 1 ∈ operators.map Prod.fst := by decide

theorem operators_ne_quote : ∀ p ∈ operators, p.1 ≠ ['\''] := by decide

theorem operators_ne_illegal : ∀ p ∈ operators, p.2 ≠ .illegal := by decide

theorem ofNumber_eq_illegal : Kind.ofNumber s = .illegal ↔ 2 ≤ s.count '.' := by
  unfold Kind.ofNumber
  split
  · next h => simp [h]
  · next h => simp [h]
  · next h₀ h₁ =>
    have hne₀ : s.count '.' ≠ 0 := h₀
    have hne₁ : s.count '.' ≠ 1 := h₁
    simp only [true_iff]
    omega

theorem IsStray.begins_nothing {c : Char} (h : IsStray c) :
    (∀ k s, ¬ Spelled k (c :: s)) ∨ c = '.' := by
  by_cases hdot : c = '.'
  · exact .inr hdot
  · left
    intro k s hs
    have hcompletes := completes_of_spelled hs
    simp only [Completes, h.1] at hcompletes
    rcases hcompletes with ⟨-, rfl, -⟩ | hop | ⟨-, rfl, -⟩
    · exact h.2 .divide (by decide)
    · rcases operators_begin _ hop with hc | hc
      · exact hdot (by simpa using hc)
      · obtain ⟨⟨q, j⟩, hq, hqc⟩ := List.mem_map.mp hc
        obtain rfl : q = [c] := hqc
        exact h.2 j hq
    · exact (isStray_iff.mp h).2 k hs

theorem isLexeme_illegal_iff : IsLexeme .illegal s ↔ IllegalSpelling s := by
  constructor
  · intro h
    obtain ⟨c, cs, rfl⟩ := List.exists_cons_of_ne_nil h.ne_nil
    have hc := Head.covers_of c
    rw [isLexeme_cons_iff] at h
    cases hh : Head.of c <;> simp only [Completes, hh] at h hc
    case lineBreak => cases h.1
    case word =>
      have hword := wordKind_mem (c :: cs)
      rw [← h.1] at hword
      exact absurd hword (by decide)
    case digit => exact .number hc h.2 (ofNumber_eq_illegal.mp h.1.symm)
    case quote =>
      obtain rfl : c = '"' := hc
      rcases h with ⟨h, -⟩ | ⟨-, h⟩
      · cases h
      · exact .unclosed h
    case other =>
      rcases h with ⟨h, -⟩ | hop | ⟨-, rfl, hop⟩
      · cases h
      · exact absurd rfl (operators_ne_illegal _ hop)
      · have hstray : IsStray c := ⟨hh, hop⟩
        exact .single (isStray_iff.mp hstray).1 (hstray.begins_nothing.imp_right .inl)
  · intro h
    cases h with
    | number hc hrun hpoints =>
      have hspelled := Spelled.number hc hrun
      rw [ofNumber_eq_illegal.mpr hpoints] at hspelled
      exact .spelled hspelled
    | unclosed h => exact .spelled (.unclosed h)
    | @single c hc h =>
      rcases h with h | rfl | rfl
      · exact .stray (by simp [hc]) fun k ↦ h k []
      · exact isLexeme_dot_iff.mpr (.inl ⟨rfl, rfl⟩)
      · refine isLexeme_cons_iff.mpr (.inr (.inr ⟨rfl, rfl, fun j hj ↦ ?_⟩))
        exact operators_ne_quote _ hj rfl

/-- The well-formed lists are what scanning can give, and printing undoes it. -/
theorem tokens_print_scan :
    (∀ source, WellFormed ((tokens source).map Token.item)) ∧
      (∀ w, WellFormed w → (tokens (ofList (printed w))).map Token.item = w) ∧
      (∀ s, IsLexeme .illegal s ↔ IllegalSpelling s) ∧ ∀ s, ¬ IsLexeme .character s := by
  refine ⟨fun source ↦ ?_, fun w hw ↦ ?_, fun s ↦ isLexeme_illegal_iff,
    fun s hs ↦ hs.ne_character rfl⟩
  · exact wellFormed_tokensAt {} source.toList
  · rw [tokens_eq_tokensAt, toList_ofList]
    exact item_tokensAt_printed hw {}

theorem tokens_print_mixed :
    let w : List Item := [⟨.comment, some "// a"⟩, ⟨.lineSeparator, none⟩, ⟨.identifier, some "x"⟩,
      ⟨.illegal, some "1..2"⟩, ⟨.maplet, some "->"⟩, ⟨.illegal, some "\"b "⟩, ⟨.endOfInput, none⟩]
    printed w = "// a\nx 1..2 -> \"b ".toList ∧ (tokens (ofList (printed w))).map Token.item = w := by
  intro w
  refine ⟨by decide, tokens_print_scan.2.1 w ⟨⟨w.dropLast, by decide, ?_⟩, by decide⟩⟩
  have hcomment : IsLexeme .comment ['/', '/', ' ', 'a'] :=
    isLexeme_comment_iff.mpr ⟨[' ', 'a'], rfl, List.all_eq_true.mp (by decide)⟩
  have hname : IsLexeme .identifier ['x'] := isLexeme_cons_iff.mpr ⟨by decide, by simp⟩
  have hnumber : IsLexeme .illegal ['1', '.', '.', '2'] :=
    isLexeme_cons_iff.mpr ⟨by decide, List.all_eq_true.mp (by decide)⟩
  have hmaplet : IsLexeme .maplet ['-', '>'] := .spelled (.operator (by decide))
  have hopen : IsLexeme .illegal ['"', 'b', ' '] :=
    isLexeme_quote_iff.mpr (.inr ⟨rfl, List.all_eq_true.mp (by decide)⟩)
  intro a ha
  have hmem : a = w[0] ∨ a = w[1] ∨ a = w[2] ∨ a = w[3] ∨ a = w[4] ∨ a = w[5] := by
    simpa [w] using ha
  rcases hmem with rfl | rfl | rfl | rfl | rfl | rfl
  · exact .lexeme (by decide) hcomment
  · exact .lineSeparator
  · exact .lexeme (by decide) hname
  · exact .lexeme (by decide) hnumber
  · exact .lexeme (by decide) hmaplet
  · exact .lexeme (by decide) hopen

end Lexemes
