namespace Lexemes.Text

def inRanges : List (Nat × Nat) → Char → Bool
  | [], _ => false
  | r :: rs, c => decide (r.1 ≤ c.toNat) && (decide (c.toNat ≤ r.2) || inRanges rs c)

def ascending : List (Nat × Nat) → Bool
  | [] => true
  | [r] => decide (r.1 ≤ r.2)
  | r :: s :: rs => decide (r.1 ≤ r.2) && decide (r.2 < s.1) && ascending (s :: rs)

theorem ascending_tail {r : Nat × Nat} {rs : List (Nat × Nat)} (h : ascending (r :: rs) = true) :
    ascending rs = true := by
  cases rs with
  | nil => rfl
  | cons s rs => simp_all [ascending]

theorem lt_of_ascending {r : Nat × Nat} {rs : List (Nat × Nat)} (h : ascending (r :: rs) = true) :
    ∀ s ∈ rs, r.1 < s.1 := by
  induction rs generalizing r with
  | nil => simp
  | cons s rs ih =>
    have hs := ih (ascending_tail h)
    simp only [ascending, Bool.and_eq_true, decide_eq_true_eq] at h
    intro t ht
    rcases List.mem_cons.1 ht with rfl | ht
    · omega
    · have := hs t ht
      omega

theorem inRanges_iff {rs : List (Nat × Nat)} (h : ascending rs = true) (c : Char) :
    inRanges rs c = true ↔ ∃ r ∈ rs, r.1 ≤ c.toNat ∧ c.toNat ≤ r.2 := by
  induction rs with
  | nil => simp [inRanges]
  | cons r rs ih =>
    have hr := lt_of_ascending h
    simp only [inRanges, Bool.and_eq_true, Bool.or_eq_true, decide_eq_true_eq,
      ih (ascending_tail h), List.mem_cons, exists_eq_or_imp]
    constructor
    · rintro ⟨hc, hc' | hs⟩
      · exact .inl ⟨hc, hc'⟩
      · exact .inr hs
    · rintro (⟨hc, hc'⟩ | ⟨s, hs, hc, hc'⟩)
      · exact ⟨hc, .inl hc'⟩
      · have := hr s hs
        exact ⟨by omega, .inr ⟨s, hs, hc, hc'⟩⟩

/-- Closed ranges of code points that ascend and stand apart, so that looking a character up may end
at the first range that begins behind it. -/
structure Table where
  ranges : List (Nat × Nat)
  ascends : ascending ranges = true

namespace Table

def holds (t : Table) (c : Char) : Bool :=
  inRanges t.ranges c

theorem holds_iff (t : Table) (c : Char) :
    t.holds c = true ↔ ∃ r ∈ t.ranges, r.1 ≤ c.toNat ∧ c.toNat ≤ r.2 :=
  inRanges_iff t.ascends c

end Table

end Lexemes.Text
