import Lexemes.Proofs.Json.Grammar

namespace Lexemes.Json

open Reader

variable {α β σ : Type} {cs mid rest rest' : List Char}

namespace Reader

theorem run_bind_eq_ok_iff {r : Reader α} {f : α → Reader β} {b : β} :
    (r >>= f).run cs = .ok (b, rest) ↔
      ∃ a mid, r.run cs = .ok (a, mid) ∧ (f a).run mid = .ok (b, rest) := by
  constructor
  · intro h
    rw [run_bind] at h
    split at h
    · cases h
    · next a mid hr => exact ⟨a, mid, hr, h⟩
  · rintro ⟨a, mid, hr, hf⟩
    rw [run_bind_ok hr, hf]

theorem exists_of_run_map {r : Reader α} {f : α → β} {b : β}
    (h : (r >>= fun a ↦ pure (f a)).run cs = .ok (b, rest)) : ∃ a, f a = b := by
  obtain ⟨a, mid, -, hpure⟩ := run_bind_eq_ok_iff.mp h
  cases hpure
  exact ⟨a, rfl⟩

theorem eq_of_run_ofExcept {result : Except Flaw α} {a : α}
    (h : (ofExcept result).run cs = .ok (a, rest)) : result = .ok a ∧ rest = cs := by
  cases result with
  | error e => cases h
  | ok b =>
    cases h
    exact ⟨rfl, rfl⟩

theorem exists_turn_of_run_loop {turn : σ → Reader (Turn σ α)} {ht : ∀ s, (turn s).Takes} {s : σ}
    {a : α} (h : (loop turn ht s).run cs = .ok (a, rest)) :
    ∃ next mid, (turn s).run cs = .ok (next, mid) := by
  rw [run_loop] at h
  split at h
  · cases h
  · next b mid hturn => exact ⟨_, mid, hturn⟩
  · next t mid hturn => exact ⟨_, mid, hturn⟩

end Reader

theorem spells_self (h : cs.all fun c ↦ c != '"' && c != '\\' && decide (0x20 ≤ c.toNat)) :
    Spells cs cs := by
  induction cs with
  | nil => exact .nil
  | cons c cs ih =>
    simp only [List.all_cons, Bool.and_eq_true, bne_iff_ne, decide_eq_true_eq] at h
    obtain ⟨⟨⟨hq, hb⟩, hc⟩, hcs⟩ := h
    exact .cons (.plain hq hb hc) (ih hcs)

theorem Spells.stringText {inner s : List Char} (h : Spells inner s) : StringText inner := by
  induction h with
  | nil => exact .nil
  | cons hpiece _ ih =>
    cases hpiece with
    | plain hq hb hc => exact .cons (.plain hq hb hc) ih
    | letter hx => exact .cons (.letter hx) ih
    | unit hu => exact .cons (.unit hu) ih
    | pair hu hv =>
      rw [List.append_assoc]
      exact .cons (.unit hu) (.cons (.unit hv) ih)

namespace Quoted

variable {c : Char} {u v piece inner read s : List Char} {m n : ℕ}
  {next : Turn (List Char) (List Char)}

theorem run_unit_of_unitText (h : UnitText u n) : unit.run (u ++ rest) = .ok (n, rest) := by
  obtain ⟨ha, hb, hc, hd⟩ := h
  simp [unit, unitOf, ha, hb, hc, hd]

theorem run_pairMark : (pairMark c).run (c :: rest) = .ok ((), rest) := by
  rw [pairMark, run_bind_ok (run_take _ _ _), if_pos rfl, run_pure]

theorem isLowSurrogate_of_isHighSurrogate (h : isHighSurrogate n) : isLowSurrogate n = false := by
  simp only [isHighSurrogate, Bool.and_eq_true, decide_eq_true_eq] at h
  simp only [isLowSurrogate, Bool.and_eq_false_iff, decide_eq_false_iff_not]
  omega

theorem run_codePoint_unit (hu : UnitText u n) (hhigh : isHighSurrogate n = false)
    (hlow : isLowSurrogate n = false) : codePoint.run (u ++ rest) = .ok (Char.ofNat n, rest) := by
  rw [codePoint, run_bind_ok (run_unit_of_unitText hu), hhigh, hlow]
  rfl

theorem run_codePoint_pair (hu : UnitText u m) (hv : UnitText v n) (hhigh : isHighSurrogate m)
    (hlow : isLowSurrogate n) : codePoint.run (u ++ '\\' :: 'u' :: (v ++ rest)) =
      .ok (Char.ofNat (0x10000 + (m - 0xD800) * 0x400 + (n - 0xDC00)), rest) := by
  rw [codePoint, run_bind_ok (run_unit_of_unitText hu), isLowSurrogate_of_isHighSurrogate hhigh,
    if_neg Bool.false_ne_true, if_pos hhigh, run_bind_ok run_pairMark, run_bind_ok run_pairMark,
    run_bind_ok (run_unit_of_unitText hv), if_pos hlow, run_pure]

theorem run_turn_of_charText (h : CharText piece c) :
    (turn kept read).run (piece ++ rest) = .ok (.again (c :: read), rest) := by
  cases h with
  | plain hq hb hc => exact run_turn_plain _ hq hb hc
  | letter hx => exact run_turn_escape (run_escape_letter _ hx)
  | unit hu hhigh hlow =>
    exact run_turn_escape ((run_escape_unit _).trans (run_codePoint_unit hu hhigh hlow))
  | pair hu hv hhigh hlow =>
    rw [List.append_assoc]
    exact run_turn_escape ((run_escape_unit _).trans (run_codePoint_pair hu hv hhigh hlow))

theorem run_loop_of_spells (h : Spells inner s) :
    (loop (turn kept) (takes_turn kept) read).run (inner ++ '"' :: rest) =
      .ok (read.reverse ++ s, rest) := by
  induction h generalizing read with
  | nil =>
    have hdone : (turn kept read).run ('"' :: rest) = .ok (.done read.reverse, rest) := rfl
    rw [List.nil_append, run_loop_done hdone, List.append_nil]
  | cons hpiece h ih =>
    rw [List.append_assoc, run_loop_again (run_turn_of_charText hpiece), ih, List.reverse_cons,
      List.append_assoc, List.singleton_append]

/-- A string is read as what it spells, once its first quote has been taken. -/
theorem run_text_of_spells (h : Spells inner s) :
    text.run (inner ++ '"' :: rest) = .ok (String.ofList s, rest) := by
  have hbody : (body kept).run (inner ++ '"' :: rest) = .ok (s, rest) := run_loop_of_spells h
  rw [text, run_bind_ok hbody, run_pure]

theorem eq_of_run_pairMark {x : Char} {a : Unit} (h : (pairMark c).run (x :: cs) = .ok (a, rest)) :
    x = c ∧ rest = cs := by
  rw [pairMark, run_bind_ok (run_take _ _ _)] at h
  split_ifs at h with hx
  · cases h
    exact ⟨hx, rfl⟩
  · cases h

theorem exists_unit_of_run_pairMark {a b : Unit} (h : StringText inner)
    (hslash : (pairMark '\\').run (inner ++ '"' :: rest) = .ok (a, cs))
    (hu : (pairMark 'u').run cs = .ok (b, mid)) :
    ∃ v n tail, UnitText v n ∧ StringText tail ∧ inner = '\\' :: 'u' :: (v ++ tail) ∧
      mid = v ++ (tail ++ '"' :: rest) := by
  cases h with
  | nil => exact absurd (eq_of_run_pairMark hslash).1 (by decide)
  | cons hpiece htail =>
    cases hpiece with
    | plain hq hb hc => exact absurd (eq_of_run_pairMark hslash).1 hb
    | letter hx =>
      obtain ⟨-, rfl⟩ := eq_of_run_pairMark hslash
      obtain ⟨rfl, -⟩ := eq_of_run_pairMark hu
      have hnone : letters.lookup 'u' = none := by decide
      simp [hnone] at hx
    | unit hv =>
      obtain ⟨-, rfl⟩ := eq_of_run_pairMark hslash
      obtain ⟨-, rfl⟩ := eq_of_run_pairMark hu
      exact ⟨_, _, _, hv, htail, rfl, by simp⟩

theorem exists_charText_of_run_turn (hpiece : PieceText piece) (hinner : StringText inner)
    (h : (turn kept read).run (piece ++ (inner ++ '"' :: rest)) = .ok (next, mid)) :
    ∃ c front tail, CharText front c ∧ StringText tail ∧ piece ++ inner = front ++ tail := by
  cases hpiece with
  | plain hq hb hc => exact ⟨_, _, inner, .plain hq hb hc, hinner, rfl⟩
  | letter hx => exact ⟨_, _, inner, .letter hx, hinner, rfl⟩
  | @unit u m hu =>
    rw [List.cons_append, List.cons_append, turn, run_bind_ok (run_take _ _ _), if_neg (by decide),
      if_pos rfl] at h
    obtain ⟨c, _, hescape, -⟩ := run_bind_eq_ok_iff.mp h
    replace hescape := (run_escape_unit codePoint).symm.trans hescape
    rw [codePoint, run_bind_ok (run_unit_of_unitText hu)] at hescape
    split_ifs at hescape with hlow hhigh
    · cases hescape
    · obtain ⟨_, _, hslash, hescape⟩ := run_bind_eq_ok_iff.mp hescape
      obtain ⟨_, _, hmark, hescape⟩ := run_bind_eq_ok_iff.mp hescape
      obtain ⟨v, n, tail, hv, htail, rfl, rfl⟩ := exists_unit_of_run_pairMark hinner hslash hmark
      rw [run_bind_ok (run_unit_of_unitText hv)] at hescape
      split_ifs at hescape with hsecond
      · exact ⟨_, _, tail, .pair hu hv hhigh hsecond, htail, by simp⟩
      · cases hescape
    · exact ⟨_, _, inner, .unit hu (by simpa using hhigh) (by simpa using hlow), hinner, rfl⟩

theorem exists_spells_of_run_loop {t : List Char} (hinner : StringText inner)
    (h : (loop (turn kept) (takes_turn kept) read).run (inner ++ '"' :: rest) =
      .ok (t, rest')) : ∃ s, Spells inner s := by
  -- A pair takes two parts at once, so the induction is on how much there is to read.
  induction hlength : inner.length using Nat.strong_induction_on generalizing inner read with
  | _ k ih =>
    cases hinner with
    | nil => exact ⟨[], .nil⟩
    | cons hpiece htail =>
      rw [List.append_assoc] at h
      obtain ⟨_, _, hturn⟩ := exists_turn_of_run_loop h
      obtain ⟨c, front, tail, hfront, htail, heq⟩ := exists_charText_of_run_turn hpiece htail hturn
      rw [← List.append_assoc, heq, List.append_assoc,
        run_loop_again (run_turn_of_charText hfront)] at h
      have hshort : tail.length < k := by
        have hfront := List.length_pos_of_ne_nil hfront.ne_nil
        rw [← hlength, heq, List.length_append]
        omega
      obtain ⟨s, hs⟩ := ih _ hshort htail h rfl
      exact ⟨c :: s, heq ▸ hs.cons hfront⟩

/-- Nothing but what a string spells is read. -/
theorem spells_of_run_text {name : String} (hinner : StringText inner)
    (h : text.run (inner ++ '"' :: rest) = .ok (name, rest')) : Spells inner name.toList := by
  obtain ⟨t, _, hbody, -⟩ := run_bind_eq_ok_iff.mp h
  obtain ⟨s, hs⟩ := exists_spells_of_run_loop hinner hbody
  rw [run_text_of_spells hs] at h
  cases h
  rwa [String.toList_ofList]

theorem exists_run_turn {m : Manner}
    (hpoint : ∀ u n rest, UnitText u n → ∃ c, m.point.run (u ++ rest) = .ok (c, rest))
    (h : PieceText piece) :
    ∃ c, (turn m read).run (piece ++ rest) = .ok (.again (c :: read), rest) := by
  cases h with
  | plain hq hb hc => exact ⟨_, run_turn_plain _ hq hb hc⟩
  | letter hx => exact ⟨_, run_turn_escape (run_escape_letter _ hx)⟩
  | unit hu =>
    obtain ⟨c, hc⟩ := hpoint _ _ rest hu
    exact ⟨c, run_turn_escape ((run_escape_unit _).trans hc)⟩

theorem run_ignored (h : StringText inner) :
    ignored.run (inner ++ '"' :: rest) = .ok ((), rest) := by
  have hpoint : ∀ u n rest, UnitText u n → ∃ c, passedOver.point.run (u ++ rest) = .ok (c, rest) :=
    fun u n rest hu ↦ ⟨_, run_bind_ok (run_unit_of_unitText hu)⟩
  have hloop : ∀ read, ∃ cs, (loop (turn passedOver) (takes_turn passedOver) read).run
      (inner ++ '"' :: rest) = .ok (cs, rest) := by
    induction h with
    | nil => exact fun read ↦ ⟨read.reverse, run_loop_done rfl⟩
    | cons hpiece h ih =>
      intro read
      obtain ⟨c, hc⟩ := exists_run_turn hpoint hpiece
      rw [List.append_assoc, run_loop_again hc]
      exact ih _
  obtain ⟨cs, hcs⟩ := hloop []
  have hbody : (body passedOver).run (inner ++ '"' :: rest) = .ok (cs, rest) := hcs
  exact run_bind_ok hbody

end Quoted

section Keys

variable {m : Member} {name name' : String}

theorem Member.Names.unique (h : m.Names name) (h' : m.Names name') : name = name' := by
  have hrun : Quoted.text.run (m.key.text ++ ['"']) = .ok (String.ofList name.toList, []) :=
    Quoted.run_text_of_spells h
  rw [Quoted.run_text_of_spells h'] at hrun
  simpa using hrun.symm

theorem Member.Names.not_names (h : m.Names name) (hne : name ≠ name') : ¬ m.Names name' :=
  fun h' ↦ hne (h.unique h')

variable {cut : Flaw} {first : Char → Reader α} {behind : String → Reader α}

theorem run_key_of_names (hfirst : first '"' = Quoted.text >>= behind) (h : m.Names name) :
    (takeNext cut >>= first).run (m.whole ++ rest) =
      (behind name).run (m.key.back ++ ':' :: (m.value.whole ++ rest)) := by
  rw [Member.whole_append, run_bind_ok (run_takeNext _ m.key.gap_front rfl), hfirst,
    run_bind_ok (Quoted.run_text_of_spells h), String.ofList_toList]

theorem exists_names_of_run_key {a : α} (hfirst : first '"' = Quoted.text >>= behind)
    (h : (takeNext cut >>= first).run (m.whole ++ rest) = .ok (a, rest')) :
    ∃ name, m.Names name := by
  rw [Member.whole_append, run_bind_ok (run_takeNext _ m.key.gap_front rfl), hfirst] at h
  obtain ⟨name, _, htext, -⟩ := run_bind_eq_ok_iff.mp h
  exact ⟨name, Quoted.spells_of_run_text m.isKey htext⟩

end Keys

end Lexemes.Json
