import Lexemes.Proofs.Lossless
import Lexemes.Proofs.Printing
import Lexemes.Report
import Mathlib.Data.List.Forall2

namespace Lexemes

open String Text

namespace Reason

def opening : Reason → List Char
  | openString _ => ['U', 'n', 't']
  | characterLiteral => ['C', 'h', 'a']
  | loneDot => ['E', 'x', 'p']
  | secondPoint _ => ['M', 'a', 'l']
  | strangeCharacter _ => ['U', 'n', 'r']
  | noText => ['I', 'l', 'l']

theorem take_append {a : String} {cs : List Char} (h : a.toList.take 3 = cs) (hcs : cs.length = 3)
    (s : String) : (a ++ s).toList.take 3 = cs := by
  have hlen : 3 ≤ a.toList.length := by
    rw [← h, List.length_take] at hcs
    omega
  rw [toList_append, List.take_append_of_le_length hlen, h]

theorem take_message (r : Reason) : r.message.toList.take 3 = r.opening := by
  have hopen : "Unterminated string literal ".toList.take 3 = ['U', 'n', 't'] := by decide +kernel
  have hnumber : "Malformed number ".toList.take 3 = ['M', 'a', 'l'] := by decide +kernel
  have hstrange : "Unrecognized character ".toList.take 3 = ['U', 'n', 'r'] := by decide +kernel
  cases r with
  | openString s => exact take_append hopen rfl s
  | secondPoint s => exact take_append (take_append hnumber rfl s) rfl _
  | strangeCharacter c => exact take_append hstrange rfl (singleton c)
  | characterLiteral | loneDot | noText => decide +kernel

theorem message_injective {a b : Reason} (h : a.message = b.message) : a = b := by
  have hopening : a.opening = b.opening := by rw [← take_message, h, take_message]
  cases a <;> cases b <;> simp [opening] at hopening
  case openString.openString s t => exact congrArg _ ((append_right_inj _).mp h)
  case secondPoint.secondPoint s t =>
    exact congrArg _ ((append_right_inj _).mp ((append_left_inj _).mp h))
  case strangeCharacter.strangeCharacter c d =>
    exact congrArg _ (singleton_inj.mp ((append_right_inj _).mp h))
  case characterLiteral.characterLiteral => rfl
  case loneDot.loneDot => rfl
  case noText.noText => rfl

theorem message_eq_iff {a b : Reason} : a.message = b.message ↔ a = b :=
  ⟨message_injective, congrArg _⟩

theorem ofText_eq {text : String} {c : Char} {cs : List Char} (h : text.toList = c :: cs) :
    ofText text = if c = '"' then openString text
      else if c = '\'' then characterLiteral
      else if c = '.' then loneDot
      else if c.isDigit then secondPoint text
      else strangeCharacter c := by
  rw [ofText, h]

theorem ofText_eq_iff {text : String} {c : Char} {cs : List Char} (h : text.toList = c :: cs) :
    (ofText text = openString text ↔ c = '"') ∧ (ofText text = characterLiteral ↔ c = '\'') ∧
      (ofText text = loneDot ↔ c = '.') ∧ (ofText text = secondPoint text ↔ c.isDigit) := by
  rw [ofText_eq h]
  split_ifs with hq ha hd hn
  · simp [hq, show '"'.isDigit = false from rfl]
  · simp [ha, show '\''.isDigit = false from rfl]
  · simp [hd, show '.'.isDigit = false from rfl]
  · simp [hq, ha, hd, hn]
  · simp [hq, ha, hd, hn]

end Reason

variable {source path : String} {t : Token} {c : Char} {s front rest : List Char}

section Illegal

theorem Longest.illegal_quote (h : Longest .illegal ('"' :: s) ('"' :: s ++ rest)) :
    '"' ∉ s ∧ ∀ x ∈ rest.head?, isLineBreak x := by
  constructor
  · intro hq
    rcases isLexeme_quote_iff.mp h.isLexeme with ⟨hk, -⟩ | ⟨-, hs⟩
    · cases hk
    · exact not_continuesString hq hs
  · intro x hx
    obtain ⟨tail, rfl⟩ := List.head?_eq_some_iff.mp hx
    exact h.lineBreak (.inr ⟨rfl, rfl⟩)

theorem Longest.illegal_number (hc : c.isDigit) (h : Longest .illegal (c :: s) (c :: s ++ rest)) :
    (∀ x ∈ c :: s, Kind.continuesNumber x) ∧ (∀ x ∈ rest.head?, Kind.continuesNumber x = false) ∧
      2 ≤ (c :: s).count '.' := by
  obtain ⟨hs, hnext, -⟩ := longest_append_iff.mp h
  rw [isLexeme_cons_iff] at hs
  simp only [Completes, head_digit hc] at hs
  obtain ⟨hk, hs⟩ := hs
  refine ⟨List.forall_mem_cons.mpr ⟨by simp [Kind.continuesNumber, hc], hs⟩, fun x hx ↦ ?_,
    ofNumber_eq_illegal.mp hk.symm⟩
  refine Bool.eq_false_iff.mpr fun hxc ↦ hnext x hx (.ofNumber (c :: (s ++ [x]))) ?_
  refine .spelled (.number hc fun y hy ↦ ?_)
  rcases List.mem_append.mp hy with hy | hy
  · exact hs y hy
  · rwa [List.mem_singleton.mp hy]

theorem Longest.illegal_dot (h : Longest .illegal ('.' :: s) ('.' :: s ++ rest)) :
    s = [] ∧ ¬ ['.', '.'] <+: rest := by
  obtain ⟨hs, -, hdots⟩ := longest_append_iff.mp h
  rcases isLexeme_dot_iff.mp hs with ⟨-, rfl⟩ | ⟨hk, -⟩
  · exact ⟨rfl, hdots rfl⟩
  · cases hk

theorem IsLexeme.illegal_single (h : IsLexeme .illegal (c :: s)) (hq : c ≠ '"') (hd : ¬ c.isDigit) :
    s = [] ∧ isBlank c = false ∧ ((∀ k cs, ¬ Spelled k (c :: cs)) ∨ c = '.' ∨ c = '\'') := by
  cases isLexeme_illegal_iff.mp h with
  | number hc => exact absurd hc hd
  | unclosed => exact absurd rfl hq
  | single hb hstray => exact ⟨rfl, hb, hstray⟩

end Illegal

def Span.behind (a : Span) (source : String) : List Char :=
  (between source a.stop source.utf8ByteSize).toList

theorem Token.ReadsLexeme.behind (h : t.ReadsLexeme source front s rest) :
    t.span.behind source = rest := by
  have hsplit : source.toList = (front ++ s) ++ (rest ++ []) := by simp [h.split]
  have hsize : source.utf8ByteSize = utf8Len (front ++ s) + utf8Len rest := by
    rw [← utf8Len_toList, hsplit, List.append_nil, utf8Len_append]
  rw [Span.behind, h.standsFor.stop, hsize, between_eq hsplit, toList_ofList]

namespace Report

/-- The report says of the illegal token `t` why the scan of `source` could not do better. -/
structure Explains (r : Report) (source : String) (t : Token) : Prop where
  text : r.text = t.span.slice source
  line : r.line = t.line
  column : r.column = t.column
  computed : r.message = (Reason.ofText r.text).message
  openString : r.message = "Unterminated string literal " ++ r.text ↔ r.text.toList.head? = some '"'
  unclosed : r.text.toList.head? = some '"' →
    '"' ∉ r.text.toList.tail ∧ ∀ c ∈ (t.span.behind source).head?, isLineBreak c
  secondPoint : r.message = "Malformed number " ++ r.text ++ " has more than one decimal point" ↔
    ∃ c ∈ r.text.toList.head?, c.isDigit
  /-- The text goes as far as the digits, points and underscores do. -/
  points : (∃ c ∈ r.text.toList.head?, c.isDigit) →
    (∀ c ∈ r.text.toList, Kind.continuesNumber c) ∧
      (∀ c ∈ (t.span.behind source).head?, Kind.continuesNumber c = false) ∧
      2 ≤ r.text.toList.count '.'
  loneDot : r.message = "Expected '...' but found a lone '.'" ↔
    r.text = "." ∧ ¬ ['.', '.'] <+: t.span.behind source
  characterLiteral : r.message = "Character literals are not supported" ↔ r.text = "'"
  strange : r.text.toList.head? ≠ some '"' → (∀ c ∈ r.text.toList.head?, ¬ c.isDigit) →
    r.text ≠ "." → r.text ≠ "'" →
    ∃ c, r.text = singleton c ∧ r.message = "Unrecognized character " ++ r.text ∧
      isBlank c = false ∧ ∀ k cs, ¬ Spelled k (c :: cs)
  reasoned : r.message ≠ "Illegal token"

def onToken (path : String) (t : Token) : Report :=
  ⟨path, (Reason.ofText (t.text.getD "")).message, t.text.getD "", t.line, t.column⟩

theorem ofTokens_eq (path : String) (ts : List Token) :
    ofTokens path ts = (ts.filter Token.isIllegal).map (onToken path) := by
  induction ts with
  | nil => rfl
  | cons t ts ih =>
    by_cases ht : t.isIllegal
    · have hfirst : ofToken? path t = some (onToken path t) := if_pos ht
      rw [ofTokens, List.filterMap_cons_some hfirst, List.filter_cons_of_pos ht, List.map_cons,
        ← ih]
      rfl
    · have hfirst : ofToken? path t = none := if_neg ht
      rw [ofTokens, List.filterMap_cons_none hfirst, List.filter_cons_of_neg ht, ← ih]
      rfl

theorem explains_of_longest {r : Report} (hline : r.line = t.line) (hcolumn : r.column = t.column)
    (hmessage : r.message = (Reason.ofText r.text).message) (hslice : r.text = t.span.slice source)
    (hbehind : t.span.behind source = rest) (htext : r.text.toList = c :: s)
    (h : Longest .illegal (c :: s) (c :: s ++ rest)) : r.Explains source t := by
  obtain ⟨hopen, hliteral, hdot, hnumber⟩ := Reason.ofText_eq_iff htext
  have hmessage_iff (a : Reason) : r.message = a.message ↔ Reason.ofText r.text = a := by
    rw [hmessage, Reason.message_eq_iff]
  have hsingle := h.isLexeme.illegal_single
  constructor
  case text => exact hslice
  case line => exact hline
  case column => exact hcolumn
  case computed => exact hmessage
  case openString =>
    refine ((hmessage_iff (.openString r.text)).trans hopen).trans ?_
    simp [htext]
  case unclosed =>
    intro hq
    obtain rfl : c = '"' := by simpa [htext] using hq
    simpa [htext, hbehind] using h.illegal_quote
  case secondPoint =>
    refine ((hmessage_iff (.secondPoint r.text)).trans hnumber).trans ?_
    simp [htext]
  case points =>
    intro hd
    have hc : c.isDigit := by simpa [htext] using hd
    simpa only [htext, hbehind] using h.illegal_number hc
  case loneDot =>
    refine ((hmessage_iff .loneDot).trans hdot).trans ⟨fun hc ↦ ?_, fun hc ↦ ?_⟩
    · subst hc
      obtain ⟨rfl, hdots⟩ := h.illegal_dot
      exact ⟨toList_injective htext, hbehind ▸ hdots⟩
    · rw [hc.1] at htext
      exact (List.cons.inj htext).1.symm
  case characterLiteral =>
    refine ((hmessage_iff .characterLiteral).trans hliteral).trans ⟨fun hc ↦ ?_, fun hc ↦ ?_⟩
    · subst hc
      obtain ⟨rfl, -⟩ := hsingle (by decide) (by decide)
      exact toList_injective htext
    · rw [hc] at htext
      exact (List.cons.inj htext).1.symm
  case strange =>
    intro hq hd hpoint hquote
    have hcq : c ≠ '"' := by simpa [htext] using hq
    have hcd : ¬ c.isDigit := by simpa [htext] using hd
    obtain ⟨rfl, hblank, hbegins⟩ := hsingle hcq hcd
    have hsingleton : r.text = singleton c := toList_injective (by rw [htext, toList_singleton])
    have hdot' : c ≠ '.' := fun hc ↦ hpoint (by rw [hsingleton, hc]; rfl)
    have hliteral' : c ≠ '\'' := fun hc ↦ hquote (by rw [hsingleton, hc]; rfl)
    have hreason : Reason.ofText r.text = .strangeCharacter c := by
      rw [Reason.ofText_eq htext, if_neg hcq, if_neg hliteral', if_neg hdot', if_neg hcd]
    refine ⟨c, hsingleton, ?_, hblank, ?_⟩
    · rw [hsingleton]
      exact (hmessage_iff (.strangeCharacter c)).mpr hreason
    · simpa [hdot', hliteral'] using hbegins
  case reasoned =>
    intro hnone
    have hreason := (hmessage_iff .noText).mp hnone
    rw [Reason.ofText_eq htext] at hreason
    split_ifs at hreason

theorem explains_onToken (hk : t.kind = .illegal) (h : t.ReadsLexeme source front s rest) :
    (onToken path t).Explains source t := by
  have hlongest := h.longest
  obtain ⟨c, s, rfl⟩ := List.exists_cons_of_ne_nil hlongest.isLexeme.ne_nil
  have htext : (onToken path t).text = t.span.slice source := by
    have hsome := h.standsFor.text
    rw [if_neg (by simp [hk])] at hsome
    simp [onToken, hsome]
  have hlist : (onToken path t).text.toList = c :: s := by
    rw [htext, h.standsFor.slice, toList_ofList]
  rw [hk] at hlongest
  exact explains_of_longest rfl rfl rfl htext h.behind hlist hlongest

end Report

/-- Each illegal token has one report, in the order of the source, which tells the reason. -/
theorem reports_tokens (path source : String) :
    List.Forall₂ (fun t r ↦ r.path = path ∧ r.Explains source t)
      ((tokens source).filter Token.isIllegal) (Report.ofTokens path (tokens source)) := by
  rw [Report.ofTokens_eq, List.forall₂_map_right_iff, List.forall₂_same]
  intro t ht
  obtain ⟨hmem, hillegal⟩ := List.mem_filter.mp ht
  have hk : t.kind = .illegal := by simpa [Token.isIllegal] using hillegal
  obtain ⟨front, s, rest, h⟩ := readsLexeme_of_mem hmem (by simp [hk])
  exact ⟨rfl, Report.explains_onToken hk h⟩

end Lexemes
