import Lexemes.Json.Quoted
import Mathlib.Data.Char
import Mathlib.Data.Nat.Notation

namespace Lexemes.Json

namespace Quoted

open Reader

/-- The ways to write a character: only the quote, the backslash and the control characters are
escaped. -/
inductive Written (c : Char) : List Char → Prop
  | plain (hq : c ≠ '"') (hb : c ≠ '\\') (hc : 0x20 ≤ c.toNat) : Written c [c]
  | letter {x : Char} (hx : letters.lookup x = some c) (hc : c = '"' ∨ c = '\\' ∨ c.toNat < 0x20) :
      Written c ['\\', x]
  | unit (hc : c.toNat < 0x20) :
      Written c ['\\', 'u', '0', '0', hexDigit (c.toNat / 16), hexDigit (c.toNat % 16)]

theorem letters_lookup : ∀ p ∈ letters, letters.lookup p.1 = some p.2 := by decide

theorem letters_escaped : ∀ p ∈ letters, p.2 ≠ '/' → p.2 = '"' ∨ p.2 = '\\' ∨ p.2.toNat < 0x20 := by
  decide

theorem written_encodeChar (c : Char) : Written c (encodeChar c) := by
  unfold encodeChar
  by_cases hslash : c = '/'
  · subst hslash
    exact .plain (by decide) (by decide) (by decide)
  rw [if_neg hslash]
  cases hfind : letters.find? fun p ↦ p.2 == c with
  | some p =>
    obtain ⟨x, d⟩ := p
    obtain rfl : d = c := by simpa using List.find?_some hfind
    have hmem := List.mem_of_find?_eq_some hfind
    exact .letter (letters_lookup _ hmem) (letters_escaped _ hmem hslash)
  | none =>
    have hnone : ∀ p ∈ letters, p.2 ≠ c := by simpa using hfind
    dsimp only
    split_ifs with hc
    · exact .unit hc
    · exact .plain (fun h ↦ hnone ('"', '"') (by decide) h.symm)
        (fun h ↦ hnone ('\\', '\\') (by decide) h.symm) (by omega)

theorem hexValue?_hexDigit : ∀ n < 16, hexValue? (hexDigit n) = some n := by decide

variable {c x : Char} {cs read rest : List Char}

theorem run_unit {m n : ℕ} (hm : m < 16) (hn : n < 16) :
    unit.run ('0' :: '0' :: hexDigit m :: hexDigit n :: rest) = .ok (m * 16 + n, rest) := by
  have hzero : hexValue? '0' = some 0 := by decide
  simp [unit, unitOf, hzero, hexValue?_hexDigit m hm, hexValue?_hexDigit n hn]

theorem run_codePoint (hc : c.toNat < 0x20) : codePoint.run
    ('0' :: '0' :: hexDigit (c.toNat / 16) :: hexDigit (c.toNat % 16) :: rest) = .ok (c, rest) := by
  have hvalue : c.toNat / 16 * 16 + c.toNat % 16 = c.toNat := by omega
  have hlow : isLowSurrogate c.toNat = false := by
    simp only [isLowSurrogate, Bool.and_eq_false_iff, decide_eq_false_iff_not]
    omega
  have hhigh : isHighSurrogate c.toNat = false := by
    simp only [isHighSurrogate, Bool.and_eq_false_iff, decide_eq_false_iff_not]
    omega
  rw [codePoint, run_bind_ok (run_unit (by omega) (by omega)), hvalue]
  simp [hlow, hhigh, Char.ofNat_toNat]

theorem run_escape_letter (point : Reader Char) (hx : letters.lookup x = some c) :
    (escape point).run (x :: rest) = .ok (c, rest) := by
  rw [escape, run_bind_ok (run_take _ _ _)]
  simp [hx]

theorem run_escape_unit (point : Reader Char) :
    (escape point).run ('u' :: rest) = point.run rest := by
  have hnone : letters.lookup 'u' = none := by decide
  rw [escape, run_bind_ok (run_take _ _ _)]
  simp [hnone]

theorem run_turn_plain (m : Manner) (hq : c ≠ '"') (hb : c ≠ '\\') (hc : 0x20 ≤ c.toNat) :
    (turn m read).run (c :: rest) = .ok (.again (c :: read), rest) := by
  rw [turn, run_bind_ok (run_take _ _ _), if_neg hq, if_neg hb, if_neg (by omega)]
  rfl

theorem run_turn_escape {m : Manner} (h : (escape m.point).run cs = .ok (c, rest)) :
    (turn m read).run ('\\' :: cs) = .ok (.again (c :: read), rest) := by
  rw [turn, run_bind_ok (run_take _ _ _), if_neg (by decide), if_pos rfl, run_bind_ok h]
  rfl

theorem run_turn (h : Written c cs) :
    (turn kept read).run (cs ++ rest) = .ok (.again (c :: read), rest) := by
  cases h with
  | plain hq hb hc => exact run_turn_plain _ hq hb hc
  | letter hx => exact run_turn_escape (run_escape_letter _ hx)
  | unit hc => exact run_turn_escape ((run_escape_unit _).trans (run_codePoint hc))

theorem run_body (s : List Char) :
    (loop (turn kept) (takes_turn kept) read).run (s.flatMap encodeChar ++ '"' :: rest) =
      .ok (read.reverse ++ s, rest) := by
  induction s generalizing read with
  | nil =>
    have hdone : (turn kept read).run ('"' :: rest) = .ok (.done read.reverse, rest) := rfl
    rw [List.flatMap_nil, List.nil_append, run_loop_done hdone, List.append_nil]
  | cons c s ih =>
    rw [List.flatMap_cons, List.append_assoc, run_loop_again (run_turn (written_encodeChar c)), ih,
      List.reverse_cons, List.append_assoc, List.singleton_append]

theorem run_text (s : String) :
    text.run (s.toList.flatMap encodeChar ++ '"' :: rest) = .ok (s, rest) := by
  have hbody : (body kept).run (s.toList.flatMap encodeChar ++ '"' :: rest) =
      .ok (s.toList, rest) := run_body s.toList
  rw [text, run_bind_ok hbody, String.ofList_toList]
  rfl

end Quoted

end Lexemes.Json
