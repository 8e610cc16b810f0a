import Lexemes.Json.Numeral
import Lexemes.Proofs.Json.Quoted
import Lexemes.Proofs.Passing

namespace Lexemes.Json

open Reader

/-- What follows goes on with no numeral. -/
def Closed (rest : List Char) : Prop :=
  ∀ c ∈ rest.head?, c.isDigit = false ∧ c ≠ '.' ∧ c ≠ 'e' ∧ c ≠ 'E'

variable {n : ℕ} {c : Char} {p : Char → Bool} {cs rest : List Char} {cut : Flaw}

theorem run_takeWhile (hcs : ∀ x ∈ cs, p x) (hrest : ∀ x ∈ rest.head?, p x = false) :
    (takeWhile p).run (cs ++ rest) = .ok (cs, rest) := by
  have htake := takeWhile_run hcs hrest
  have hdrop := dropWhile_run hcs hrest
  simp only [takeWhile, htake, hdrop]

namespace Numeral

theorem isDigit_toDigits : ∀ x ∈ Nat.toDigits 10 n, x.isDigit :=
  fun _ hx ↦ Nat.isDigit_of_mem_toDigits (by decide) (by decide) hx

theorem ofDigits_toDigits : ofDigits (Nat.toDigits 10 n) = n :=
  Nat.ofDigitChars_ten_toDigits

theorem eq_zero_of_head_toDigits (h : (Nat.toDigits 10 n).head? = some '0') : n = 0 := by
  induction n using Nat.strong_induction_on with
  | _ n ih =>
    rw [Nat.toDigits_eq_if (by decide)] at h
    split at h
    · simpa using h
    · rw [List.head?_append_of_ne_nil _ Nat.toDigits_ne_nil] at h
      have hzero := ih (n / 10) (by omega) h
      omega

theorem tail_toDigits (h : Nat.toDigits 10 n = '0' :: cs) : cs = [] := by
  have hzero : n = 0 := eq_zero_of_head_toDigits (by rw [h]; rfl)
  subst hzero
  rw [Nat.toDigits_zero] at h
  exact (List.cons.inj h).2.symm

theorem run_wholeDigits (hc : c.isDigit) (hcs : ∀ x ∈ cs, x.isDigit) (hzero : c = '0' → cs = [])
    (hrest : ∀ x ∈ rest.head?, x.isDigit = false) :
    (wholeDigits c).run (cs ++ rest) = .ok (c :: cs, rest) := by
  have hleading : ¬ (c = '0' ∧ cs ≠ []) := fun h ↦ h.2 (hzero h.1)
  rw [wholeDigits, if_pos hc, run_bind_ok (run_takeWhile hcs hrest), if_neg hleading]
  rfl

theorem run_fractionDigits (hrest : Closed rest) :
    (fractionDigits cut).run rest = .ok (none, rest) := by
  have hlook : look.run rest = .ok (rest.head?, rest) := rfl
  rw [fractionDigits, run_bind_ok hlook]
  split
  · next h => exact absurd rfl (hrest '.' h).2.1
  · rfl

theorem run_exponentDigits (hrest : Closed rest) :
    (exponentDigits cut).run rest = .ok (none, rest) := by
  have hlook : look.run rest = .ok (rest.head?, rest) := rfl
  rw [exponentDigits, run_bind_ok hlook]
  split
  · next h => exact absurd rfl (hrest 'e' h).2.2.1
  · next h => exact absurd rfl (hrest 'E' h).2.2.2
  · rfl

theorem run_read (hc : c.isDigit) (hcs : ∀ x ∈ cs, x.isDigit) (hzero : c = '0' → cs = [])
    (hrest : Closed rest) :
    (read cut c).run (cs ++ rest) = .ok (⟨false, c :: cs, none, none⟩, rest) := by
  have hsign : (c == '-') = false := by
    refine beq_eq_false_iff_ne.mpr fun h ↦ ?_
    subst h
    exact absurd hc (by decide)
  have hfirst : (pure c : Reader Char).run (cs ++ rest) = .ok (c, cs ++ rest) := rfl
  simp only [read, hsign, Bool.false_eq_true, if_false]
  rw [run_bind_ok hfirst, run_bind_ok (run_wholeDigits hc hcs hzero fun x hx ↦ (hrest x hx).1),
    run_bind_ok (run_fractionDigits hrest), run_bind_ok (run_exponentDigits hrest)]
  rfl

theorem toNumber_toDigits (hn : n ≤ Number.greatest) :
    toNumber ⟨false, Nat.toDigits 10 n, none, none⟩ = .ok (.whole n) := by
  have hfits : Number.fits n = true := by
    simp only [Number.fits, Bool.and_eq_true, decide_eq_true_eq]
    omega
  simp [toNumber, ofDigits_toDigits, hfits]

theorem run_readNumber (hn : n ≤ Number.greatest) (h : Nat.toDigits 10 n = c :: cs)
    (hrest : Closed rest) : (readNumber c).run (cs ++ rest) = .ok (.whole n, rest) := by
  have hdigits := isDigit_toDigits (n := n)
  rw [h, List.forall_mem_cons] at hdigits
  obtain ⟨hc, hcs⟩ := hdigits
  have hzero : c = '0' → cs = [] := fun hc ↦ tail_toDigits (hc ▸ h)
  rw [readNumber, run_bind_ok (run_read hc hcs hzero hrest), ← h, toNumber_toDigits hn]
  rfl

end Numeral

end Lexemes.Json
