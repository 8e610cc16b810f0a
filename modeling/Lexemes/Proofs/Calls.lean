import Lexemes.Proofs.Tokens

namespace Lexemes.Cursor

open Text

def afterCalls : Nat → Cursor → Cursor
  | 0, c => c
  | n + 1, c => afterCalls n c.next.2

def call (i : Nat) (c : Cursor) : Option Token :=
  (c.afterCalls i).next.1

def Passes (c d : Cursor) : Prop :=
  ∃ cs ≠ [], c.ahead = cs ++ d.ahead ∧ d.passed = c.passed + cs.length

/-- The calls from `c` on give the tokens `ts`, of which the last alone is the end of the input. -/
inductive Gives : Cursor → List Token → Prop
  | last {c d : Cursor} {t : Token} (h : c.next = (some t, d)) (ht : t.kind = .endOfInput)
      (hd : d.finished = true) : Gives c [t]
  | more {c d : Cursor} {t : Token} {ts : List Token} (h : c.next = (some t, d))
      (ht : t.kind ≠ .endOfInput) (hpass : c.Passes d) (hd : Gives d ts) : Gives c (t :: ts)

variable {c d : Cursor} {t : Token} {ts : List Token}

theorem Passes.passed_lt (h : c.Passes d) : c.passed < d.passed := by
  obtain ⟨cs, hcs, -, hpassed⟩ := h
  have hpos := List.length_pos_iff.mpr hcs
  omega

theorem Passes.ahead_lt (h : c.Passes d) : d.ahead.length < c.ahead.length := by
  obtain ⟨cs, hcs, hahead, -⟩ := h
  have hpos := List.length_pos_iff.mpr hcs
  rw [hahead, List.length_append]
  omega

theorem gives_tokens (hc : c.finished = false) : c.Gives c.tokens := by
  generalize hcs : c.ahead = cs
  induction cs using munch_induction generalizing c with
  | spaces cs h =>
    have hspaces : ∀ x ∈ c.ahead, isSpace x := hcs ▸ h
    rw [tokens_spaces hc hspaces]
    exact .last (next_of_scan hc (scan_spaces hspaces)) rfl rfl
  | lexeme gap k s rest hgap hs ih =>
    have hpass : c.Passes ((c.after gap (s ++ rest)).setMark.after s rest) := by
      refine ⟨gap ++ s, by simp [hs.isLexeme.ne_nil], by simp [hcs, after], ?_⟩
      simp [after, setMark, Nat.add_assoc]
    rw [tokens_lexeme hc hcs hgap hs]
    exact .more (next_of_scan hc (scan_lexeme hcs hgap hs)) hs.isLexeme.ne_endOfInput hpass
      (ih hc rfl)

theorem afterCalls_of_finished (hc : c.finished = true) (n : Nat) : c.afterCalls n = c := by
  induction n with
  | zero => rfl
  | succ n ih => rw [afterCalls, next_of_finished hc, ih]

theorem afterCalls_of_next (h : c.next = (some t, d)) (n : Nat) :
    c.afterCalls (n + 1) = d.afterCalls n := by
  rw [afterCalls, h]

theorem call_zero (h : c.next = (some t, d)) : c.call 0 = some t := by
  rw [call, afterCalls, h]

theorem call_succ (h : c.next = (some t, d)) (i : Nat) : c.call (i + 1) = d.call i := by
  rw [call, afterCalls_of_next h, call]

theorem call_of_finished (hc : c.finished = true) (i : Nat) : c.call i = none := by
  rw [call, afterCalls_of_finished hc, next_of_finished hc]

theorem take_of_finished (hc : c.finished = true) (k : Nat) : c.take k = ([], c) := by
  cases k with
  | zero => rfl
  | succ k => rw [take, next_of_finished hc]

theorem take_succ (h : c.next = (some t, d)) (k : Nat) :
    c.take (k + 1) = (t :: (d.take k).1, (d.take k).2) := by
  rw [take, h]

namespace Gives

theorem tokens_eq (h : c.Gives ts) : c.tokens = ts := by
  induction h with
  | last h ht hd => rw [tokens_of_next h, tokens_of_finished hd]
  | more h ht hpass hd ih => rw [tokens_of_next h, ih]

theorem length_pos (h : c.Gives ts) : 1 ≤ ts.length := by
  cases h <;> simp

theorem length_le (h : c.Gives ts) : ts.length ≤ c.ahead.length + 1 := by
  induction h with
  | last h ht hd => simp
  | more h ht hpass hd ih =>
    have hlt := hpass.ahead_lt
    rw [List.length_cons]
    omega

theorem call_eq (h : c.Gives ts) (i : Nat) : c.call i = ts[i]? := by
  induction h generalizing i with
  | last h ht hd =>
    cases i with
    | zero => rw [call_zero h, List.getElem?_cons_zero]
    | succ i => rw [call_succ h, call_of_finished hd, List.getElem?_cons_succ, List.getElem?_nil]
  | more h ht hpass hd ih =>
    cases i with
    | zero => rw [call_zero h, List.getElem?_cons_zero]
    | succ i => rw [call_succ h, ih, List.getElem?_cons_succ]

theorem kind_eq_iff (h : c.Gives ts) (i : Nat) (hi : i < ts.length) :
    ts[i].kind = .endOfInput ↔ i + 1 = ts.length := by
  induction h generalizing i with
  | last h ht hd =>
    obtain rfl : i = 0 := by simpa using hi
    simpa using ht
  | more h ht hpass hd ih =>
    cases i with
    | zero =>
      have hpos := hd.length_pos
      simp only [List.getElem_cons_zero, ht, List.length_cons, false_iff]
      omega
    | succ i =>
      rw [List.getElem_cons_succ, ih i (by simpa using hi), List.length_cons]
      omega

theorem passes (h : c.Gives ts) (i : Nat) (hi : i + 1 < ts.length) :
    (c.afterCalls i).Passes (c.afterCalls (i + 1)) := by
  induction h generalizing i with
  | last h ht hd => simp at hi
  | more h ht hpass hd ih =>
    rw [afterCalls_of_next h]
    cases i with
    | zero => exact hpass
    | succ i =>
      rw [afterCalls_of_next h]
      exact ih i (by simpa using hi)

theorem take_eq (h : c.Gives ts) (k : Nat) :
    (c.take k).1 = ts.take k ∧ (c.take k).2.tokens = ts.drop k := by
  induction k generalizing c ts with
  | zero => exact ⟨rfl, h.tokens_eq⟩
  | succ k ih =>
    cases h with
    | last h ht hd => simp [take_succ h, take_of_finished hd, tokens_of_finished hd]
    | more h ht hpass hd =>
      obtain ⟨htake, hrest⟩ := ih hd
      rw [take_succ h]
      exact ⟨congrArg _ htake, hrest⟩

end Gives

/-- The tokens `ts` can be called for at `c` one at a time, by `m` calls and no more. -/
structure CallByCall (c : Cursor) (ts : List Token) (m : Nat) : Prop where
  each : ∀ i < m, ∃ t, c.call i = some t ∧ ts[i]? = some t
  length : ts.length = m
  last : ∀ i t, c.call i = some t → (t.kind = .endOfInput ↔ i + 1 = m)
  onward : ∀ i, i + 1 < m → (c.afterCalls i).passed < (c.afterCalls (i + 1)).passed
  ended : ∀ i, m ≤ i → c.call i = none
  split : ∀ k, (c.take k).1 = ts.take (min k m) ∧ (c.take k).2.tokens = ts.drop (min k m)
  noneLeft : ∀ k, m ≤ k → (c.take k).2.tokens = []

theorem Gives.callByCall (h : c.Gives ts) : c.CallByCall ts ts.length where
  each i hi := ⟨ts[i], by rw [h.call_eq, List.getElem?_eq_getElem hi], List.getElem?_eq_getElem hi⟩
  length := rfl
  last i t ht := by
    rw [h.call_eq] at ht
    obtain ⟨hi, rfl⟩ := List.getElem?_eq_some_iff.mp ht
    exact h.kind_eq_iff i hi
  onward i hi := (h.passes i hi).passed_lt
  ended i hi := by rw [h.call_eq, List.getElem?_eq_none hi]
  split k := by
    obtain ⟨htake, hrest⟩ := h.take_eq k
    rw [htake, hrest]
    exact ⟨List.take_eq_take_min, List.drop_eq_drop_min⟩
  noneLeft k hk := by rw [(h.take_eq k).2, List.drop_eq_nil_of_le hk]

end Lexemes.Cursor

namespace Lexemes

/-- However the tokens of a source are asked for, one at a time or all at once, they are the same,
and there are no more of them than the source has characters, but for the end of the input. -/
theorem tokens_call_by_call (source : String) :
    ∃ m, 1 ≤ m ∧ m ≤ source.length + 1 ∧
      (Cursor.ofSource source).CallByCall (tokens source) m := by
  have hgives : (Cursor.ofSource source).Gives (tokens source) := Cursor.gives_tokens rfl
  have hle : (tokens source).length ≤ source.toList.length + 1 := hgives.length_le
  rw [String.length_toList] at hle
  exact ⟨_, hgives.length_pos, hle, hgives.callByCall⟩

end Lexemes
