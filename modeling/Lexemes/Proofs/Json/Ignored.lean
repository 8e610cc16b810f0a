import Lexemes.Json.Ignored
import Lexemes.Proofs.Json.Spelling

namespace Lexemes.Json

open Reader

variable {α : Type} {c : Char} {cs gap rest v : List Char} {cut : Flaw}

/-- The reader takes the text `v` for `a`, behind any gap and whatever follows. -/
def Accepts (r : Reader α) (v : List Char) (a : α) : Prop :=
  ∀ gap rest, Gap gap → Closed rest → r.run (gap ++ (v ++ rest)) = .ok (a, rest)

namespace Numeral

variable {ds fraction exponent sign : List Char}

theorem run_someDigits (cut : Flaw) (h : DigitsText ds)
    (hrest : ∀ x ∈ rest.head?, x.isDigit = false) : (someDigits cut).run (ds ++ rest) = .ok (ds, rest) := by
  obtain ⟨hsome, hds⟩ := h
  obtain ⟨d, tail, rfl⟩ := List.exists_cons_of_ne_nil hsome
  have hlook : look.run (d :: tail ++ rest) = .ok (some d, d :: tail ++ rest) := rfl
  rw [someDigits, run_bind_ok hlook]
  dsimp only
  rw [if_pos (hds d List.mem_cons_self), run_takeWhile hds hrest]

theorem exists_run_fractionDigits (cut : Flaw) (h : FractionText fraction)
    (hrest : ∀ x ∈ rest.head?, x.isDigit = false ∧ x ≠ '.') :
    ∃ o, (fractionDigits cut).run (fraction ++ rest) = .ok (o, rest) := by
  cases h with
  | absent =>
    have hlook : look.run rest = .ok (rest.head?, rest) := rfl
    refine ⟨none, ?_⟩
    rw [List.nil_append, fractionDigits, run_bind_ok hlook]
    split
    · next h => exact absurd rfl (hrest '.' h).2
    · rfl
  | @digits ds h =>
    have hdigits := run_someDigits cut h fun x hx ↦ (hrest x hx).1
    exact ⟨some ds, run_bind_ok hdigits⟩

theorem exists_run_exponentSign (hsign : sign = [] ∨ sign = ['+'] ∨ sign = ['-'])
    (hrest : ∀ x ∈ rest.head?, x.isDigit) :
    ∃ b, exponentSign.run (sign ++ rest) = .ok (b, rest) := by
  rcases hsign with rfl | rfl | rfl
  · have hlook : look.run rest = .ok (rest.head?, rest) := rfl
    refine ⟨false, ?_⟩
    rw [List.nil_append, exponentSign, run_bind_ok hlook]
    split
    · next h => exact absurd (hrest '-' h) (by decide)
    · next h => exact absurd (hrest '+' h) (by decide)
    · rfl
  · exact ⟨false, rfl⟩
  · exact ⟨true, rfl⟩

theorem exists_run_exponentDigits (cut : Flaw) (h : ExponentText exponent) (hrest : Closed rest) :
    ∃ o, (exponentDigits cut).run (exponent ++ rest) = .ok (o, rest) := by
  cases h with
  | absent => exact ⟨none, run_exponentDigits hrest⟩
  | @digits e sign ds he hsign h =>
    have hhead : ∀ x ∈ (ds ++ rest).head?, x.isDigit := by
      intro x hx
      rw [List.head?_append_of_ne_nil _ h.some_digit] at hx
      exact h.isDigit x (List.mem_of_mem_head? hx)
    obtain ⟨b, hb⟩ := exists_run_exponentSign hsign hhead
    have hdigits := run_someDigits cut h fun x hx ↦ (hrest x hx).1
    have hrun : (do
        let negative ← exponentSign
        let digits ← someDigits cut
        pure (some (negative, digits)) : Reader _).run (sign ++ (ds ++ rest)) =
          .ok (some (b, ds), rest) := by
      rw [run_bind_ok hb, run_bind_ok hdigits, run_pure]
    refine ⟨some (b, ds), ?_⟩
    rw [List.cons_append, List.append_assoc]
    rcases he with rfl | rfl <;> exact hrun

theorem head_exponent (h : ExponentText exponent) (hrest : Closed rest) :
    ∀ x ∈ (exponent ++ rest).head?, x.isDigit = false ∧ x ≠ '.' := by
  intro x hx
  cases h with
  | absent => exact ⟨(hrest x hx).1, (hrest x hx).2.1⟩
  | digits he =>
    cases hx
    rcases he with rfl | rfl <;> decide

theorem head_fraction (h : FractionText fraction) (hrest : ∀ x ∈ rest.head?, x.isDigit = false) :
    ∀ x ∈ (fraction ++ rest).head?, x.isDigit = false := by
  intro x hx
  cases h with
  | absent => exact hrest x hx
  | digits =>
    cases hx
    rfl

theorem exists_run_read (h : NumberText (c :: cs)) (hrest : Closed rest) :
    ∃ n, (Numeral.read cut c).run (cs ++ rest) = .ok (n, rest) := by
  generalize hnumber : c :: cs = number at h
  obtain ⟨hsign, @⟨d, ds, hd, hds, hzero⟩, hfraction, hexponent⟩ := h
  obtain ⟨e, he⟩ := exists_run_exponentDigits cut hexponent hrest
  have hhead := head_exponent hexponent hrest
  obtain ⟨f, hf⟩ := exists_run_fractionDigits cut hfraction hhead
  have hwhole := run_wholeDigits hd hds hzero (head_fraction hfraction fun x hx ↦ (hhead x hx).1)
  rcases hsign with rfl | rfl
  · rw [List.nil_append, List.cons_append, List.cons.injEq] at hnumber
    obtain ⟨rfl, rfl⟩ := hnumber
    have hfirst : (c == '-') = false := beq_eq_false_iff_ne.mpr (ne_of_isDigit hd rfl)
    refine ⟨⟨false, c :: ds, f, e⟩, ?_⟩
    simp only [read, hfirst, Bool.false_eq_true, if_false, List.append_assoc]
    rw [run_bind_ok (run_pure _ _), run_bind_ok hwhole, run_bind_ok hf, run_bind_ok he, run_pure]
  · rw [List.singleton_append, List.cons.injEq] at hnumber
    obtain ⟨rfl, rfl⟩ := hnumber
    refine ⟨⟨true, d :: ds, f, e⟩, ?_⟩
    simp only [read, beq_self_eq_true, if_true, List.append_assoc, List.cons_append]
    rw [run_bind_ok (run_take _ _ _), run_bind_ok hwhole, run_bind_ok hf, run_bind_ok he, run_pure]

end Numeral

theorem closed_gap (hgap : Gap gap) (hrest : Closed rest) : Closed (gap ++ rest) := by
  cases gap with
  | nil => exact hrest
  | cons c gap =>
    have hc := hgap c List.mem_cons_self
    simp only [isGap, Bool.or_eq_true, beq_iff_eq] at hc
    rcases hc with ((rfl | rfl) | rfl) | rfl <;> exact closed_cons (by decide)

theorem run_takeNext_gap (f : Char → Reader α) (hgap : Gap gap) :
    (takeNext cut >>= f).run (gap ++ cs) = (takeNext cut >>= f).run cs := by
  have hdrop : (gap ++ cs).dropWhile isGap = cs.dropWhile isGap := List.dropWhile_append_of_pos hgap
  have hrun (cs : List Char) : (takeNext cut).run cs = (take cut).run (cs.dropWhile isGap) := rfl
  rw [run_bind, run_bind, hrun, hrun, hdrop]

theorem run_colon_gap (hgap : Gap gap) : colon.run (gap ++ ':' :: rest) = .ok ((), rest) := by
  rw [colon, run_takeNext_gap _ hgap]
  rfl

namespace Ignored

variable {b : Bracket} {enclosing : List Bracket} {stage : Stage} {part : List Char}
  {parts : List (List Char)}

def following : Turn Stage Unit → Reader Unit
  | .again s => loop turn takes_turn s
  | .done () => pure ()

theorem run_loop_eq :
    (loop turn takes_turn stage).run cs = (turn stage >>= following).run cs := by
  rw [run_loop, run_bind]
  cases (turn stage).run cs with
  | error e => rfl
  | ok result =>
    obtain ⟨next, rest⟩ := result
    cases next <;> rfl

theorem run_loop_gap (hgap : Gap gap) :
    (loop turn takes_turn stage).run (gap ++ cs) = (loop turn takes_turn stage).run cs := by
  have hturn : (turn stage).run (gap ++ cs) = (turn stage).run cs := by
    cases stage <;> exact run_takeNext_gap _ hgap
  rw [run_loop_eq, run_loop_eq, run_bind, run_bind, hturn]

/-- A value is passed over, whatever is open around it. -/
def Passes (v : List Char) : Prop :=
  ∀ enclosing gap rest, Gap gap → Closed rest →
    (loop turn takes_turn (.value enclosing)).run (gap ++ (v ++ rest)) =
      (following (settle enclosing)).run rest

/-- A part inside of the bracket `b` is passed over, up to the separator behind it. -/
structure PassesPart (b : Bracket) (part : List Char) : Prop where
  opens : ∃ gap c tail, part = gap ++ c :: tail ∧ Gap gap ∧ isGap c = false ∧ c ≠ b.closer
  passes : ∀ enclosing rest, Closed rest → (enter b enclosing >>= following).run (part ++ rest) =
    (loop turn takes_turn (.separator b enclosing)).run rest

theorem passes_scalar (hc : isGap c = false) (hlist : c ≠ '[') (hobject : c ≠ '{')
    (h : ∀ rest, Closed rest → (scalar c).run (cs ++ rest) = .ok ((), rest)) :
    Passes (c :: cs) := by
  intro enclosing gap rest hgap hrest
  have hturn : (turn (.value enclosing)).run (gap ++ (c :: cs ++ rest)) =
      .ok (settle enclosing, rest) := by
    rw [turn, value, List.cons_append, run_bind_ok (run_takeNext _ hgap hc), if_neg hlist,
      if_neg hobject, run_bind_ok (h rest hrest), run_pure]
  rw [run_loop_eq, run_bind_ok hturn]

theorem run_enter_gap (hgap : Gap gap) : (enter b enclosing >>= following).run (gap ++ cs) =
    (enter b enclosing >>= following).run cs := by
  cases b with
  | list => exact run_loop_gap hgap
  | object =>
    have hkey : key.run (gap ++ cs) = key.run cs := run_takeNext_gap _ hgap
    have henter : (enter .object enclosing).run (gap ++ cs) = (enter .object enclosing).run cs := by
      rw [enter, run_bind, run_bind, hkey]
    rw [run_bind, run_bind, henter]

theorem passesPart_item {i : Padded} (hopens : ValueText i.text) (h : Passes i.text) :
    PassesPart .list i.whole where
  opens := by
    obtain ⟨c, tail, htext, hc, hend, -⟩ := hopens.opens
    exact ⟨i.front, c, tail ++ i.back, by simp [Padded.whole, htext], i.gap_front, hc, hend⟩
  passes enclosing rest hrest := by
    have hback : Closed (i.back ++ rest) := closed_gap i.gap_back hrest
    rw [Padded.whole_append]
    exact (h (.list :: enclosing) i.front _ i.gap_front hback).trans (run_loop_gap i.gap_back)

theorem run_key (m : Member) : key.run (m.whole ++ rest) = .ok ((), m.value.whole ++ rest) := by
  rw [Member.whole_append, key, run_bind_ok (run_takeNext _ m.key.gap_front rfl), if_pos rfl,
    run_bind_ok (Quoted.run_ignored m.isKey), run_colon_gap m.key.gap_back]

theorem passesPart_member {m : Member} (h : Passes m.value.text) : PassesPart .object m.whole where
  opens := ⟨m.key.front, '"', _, rfl, m.key.gap_front, rfl, by decide⟩
  passes enclosing rest hrest := by
    have henter : (enter .object enclosing).run (m.whole ++ rest) =
        .ok (.again (.value (.object :: enclosing)), m.value.whole ++ rest) :=
      run_bind_ok (run_key m)
    have hback : Closed (m.value.back ++ rest) := closed_gap m.value.gap_back hrest
    rw [run_bind_ok henter, Padded.whole_append]
    refine (h (.object :: enclosing) _ _ m.value.gap_front hback).trans ?_
    exact run_loop_gap m.value.gap_back

theorem isGap_closer (b : Bracket) : isGap b.closer = false := by
  cases b <;> rfl

theorem closer_ne_comma (b : Bracket) : b.closer ≠ ',' := by
  cases b <;> decide

theorem closed_parts : Closed (parts.flatMap (',' :: ·) ++ b.closer :: rest) := by
  cases parts with
  | nil => cases b <;> exact closed_cons (by decide)
  | cons => exact closed_cons (by decide)

theorem run_parts (h : ∀ p ∈ parts, PassesPart b p) :
    (loop turn takes_turn (.separator b enclosing)).run
      (parts.flatMap (',' :: ·) ++ b.closer :: rest) = (following (settle enclosing)).run rest := by
  rw [run_loop_eq]
  induction parts with
  | nil =>
    have hturn : (turn (.separator b enclosing)).run (b.closer :: rest) =
        .ok (settle enclosing, rest) := by
      rw [turn, separator, run_bind_ok (run_takeNext_cons _ (isGap_closer b)), if_pos rfl, run_pure]
    rw [List.flatMap_nil, List.nil_append, run_bind_ok hturn]
  | cons part parts ih =>
    obtain ⟨hpart, hparts⟩ := List.forall_mem_cons.mp h
    have hturn (cs : List Char) : (turn (.separator b enclosing)).run (',' :: cs) =
        (enter b enclosing).run cs := by
      rw [turn, separator, run_bind_ok (run_takeNext_cons _ rfl), if_neg (closer_ne_comma b).symm,
        if_pos rfl]
    rw [List.flatMap_cons, List.append_assoc, List.cons_append, run_bind, hturn, ← run_bind,
      hpart.passes enclosing _ closed_parts, run_loop_eq, ih hparts]

theorem run_opened (hgap : Gap gap) (h : ∀ p ∈ parts, PassesPart b p) :
    (opened b enclosing >>= following).run (joined gap parts ++ b.closer :: rest) =
      (following (settle enclosing)).run rest := by
  cases parts with
  | nil =>
    have hopened : (opened b enclosing).run (gap ++ b.closer :: rest) =
        .ok (settle enclosing, rest) := by
      rw [opened, run_bind_ok (run_peek hgap (isGap_closer b))]
      dsimp only
      rw [if_pos rfl]
      rfl
    rw [joined, run_bind_ok hopened]
  | cons part parts =>
    obtain ⟨hpart, hparts⟩ := List.forall_mem_cons.mp h
    obtain ⟨front, c, tail, rfl, hfront, hc, hend⟩ := hpart.opens
    have hopened (cs : List Char) : (opened b enclosing).run (front ++ c :: cs) =
        (enter b enclosing).run (c :: cs) := by
      rw [opened, run_bind_ok (run_peek hfront hc)]
      dsimp only
      rw [if_neg hend]
    have hrun := hpart.passes enclosing (parts.flatMap (',' :: ·) ++ b.closer :: rest) closed_parts
    rw [List.append_assoc, run_enter_gap hfront] at hrun
    rw [joined, List.append_assoc, List.append_assoc, List.cons_append, run_bind, hopened,
      ← run_bind, ← List.cons_append, hrun, run_parts hparts]

theorem passes_parts {opener : Char} (hopener : ∀ enclosing gap cs, Gap gap →
      (turn (.value enclosing)).run (gap ++ opener :: cs) = (opened b enclosing).run cs)
    (hgap : Gap gap) (h : ∀ p ∈ parts, PassesPart b p) :
    Passes (opener :: (joined gap parts ++ [b.closer])) := by
  intro enclosing front rest hfront _
  rw [run_loop_eq, List.cons_append, List.append_assoc, List.singleton_append, run_bind,
    hopener _ _ _ hfront, ← run_bind, run_opened hgap h]

theorem passes_valueText (h : ValueText v) : Passes v := by
  induction h with
  | null => exact passes_scalar rfl (by decide) (by decide) fun _ _ ↦ rfl
  | boolean b =>
    cases b with
    | false => exact passes_scalar rfl (by decide) (by decide) fun _ _ ↦ rfl
    | true => exact passes_scalar rfl (by decide) (by decide) fun _ _ ↦ rfl
  | number h =>
    obtain ⟨c, cs, rfl, hc⟩ := h.opens
    have hne {d : Char} : '-' ≠ d → d.isDigit = false → c ≠ d := ne_of_opens_number hc
    refine passes_scalar (isGap_of_opens_number hc) (hne (by decide) rfl) (hne (by decide) rfl)
      fun rest hrest ↦ ?_
    obtain ⟨n, hn⟩ := Numeral.exists_run_read h hrest
    rw [scalar, if_neg (hne (by decide) rfl), if_neg (hne (by decide) rfl),
      if_neg (hne (by decide) rfl), if_neg (hne (by decide) rfl), if_pos hc, run_bind_ok hn,
      run_pure]
  | string h =>
    refine passes_scalar rfl (by decide) (by decide) fun rest _ ↦ ?_
    rw [scalar, if_pos rfl, List.append_assoc, List.singleton_append, Quoted.run_ignored h]
  | list hgap h ih =>
    refine passes_parts (fun enclosing gap cs hgap ↦ ?_) hgap (List.forall_mem_map.mpr fun i hi ↦
      passesPart_item (h i hi) (ih i hi))
    rw [turn, value, run_bind_ok (run_takeNext _ hgap rfl), if_pos rfl]
  | object hgap h ih =>
    refine passes_parts (fun enclosing gap cs hgap ↦ ?_) hgap (List.forall_mem_map.mpr fun m hm ↦
      passesPart_member (ih m hm))
    rw [turn, value, run_bind_ok (run_takeNext _ hgap rfl), if_neg (by decide), if_pos rfl]

end Ignored

theorem closed_furtherMembers {ms : List Member} : Closed (furtherMembers ms ++ '}' :: rest) :=
  Ignored.closed_parts (b := .object)

theorem accepts_ignored (h : ValueText v) : Accepts ignored v () :=
  fun gap rest hgap hrest ↦ Ignored.passes_valueText h [] gap rest hgap hrest

end Lexemes.Json
