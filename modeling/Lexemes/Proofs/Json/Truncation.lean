import Lexemes.Proofs.Json.Reads

namespace Lexemes.Json

open Reader

/-- `p` is `s` without some characters at its end. -/
def Truncated (p s : List Char) : Prop :=
  ∃ c rest, s = p ++ c :: rest

variable {α β σ : Type} {c : Char} {p q s t gap : List Char} {what : Unfinished}

theorem not_truncated_nil : ¬ Truncated p [] := by
  simp [Truncated]

theorem truncated_cons : Truncated p (c :: s) ↔ p = [] ∨ ∃ q, p = c :: q ∧ Truncated q s := by
  cases p with
  | nil => simp [Truncated]
  | cons d q =>
    simp only [Truncated, List.cons_append, List.cons.injEq, reduceCtorEq, false_or]
    constructor
    · rintro ⟨x, rest, rfl, rfl⟩
      exact ⟨q, ⟨rfl, rfl⟩, x, rest, rfl⟩
    · rintro ⟨q, ⟨rfl, rfl⟩, x, rest, rfl⟩
      exact ⟨x, rest, rfl, rfl⟩

theorem truncated_append :
    Truncated p (s ++ t) ↔ Truncated p s ∨ ∃ q, p = s ++ q ∧ Truncated q t := by
  induction s generalizing p with
  | nil => simp [not_truncated_nil]
  | cons c s ih =>
    rw [List.cons_append, truncated_cons, truncated_cons, or_assoc]
    refine or_congr_right ⟨?_, ?_⟩
    · rintro ⟨q, rfl, hq⟩
      rcases ih.mp hq with hq | ⟨r, rfl, hr⟩
      · exact .inl ⟨q, rfl, hq⟩
      · exact .inr ⟨r, rfl, hr⟩
    · rintro (⟨q, rfl, hq⟩ | ⟨r, rfl, hr⟩)
      · exact ⟨q, rfl, ih.mpr (.inl hq)⟩
      · exact ⟨s ++ r, rfl, ih.mpr (.inr ⟨r, rfl, hr⟩)⟩

theorem truncated_iff_prefix : Truncated p s ↔ p <+: s ∧ p ≠ s := by
  constructor
  · rintro ⟨c, rest, rfl⟩
    exact ⟨List.prefix_append _ _, by simp⟩
  · rintro ⟨⟨rest, rfl⟩, hne⟩
    have hrest : rest ≠ [] := by
      rintro rfl
      exact hne (List.append_nil p).symm
    obtain ⟨c, rest, rfl⟩ := List.exists_cons_of_ne_nil hrest
    exact ⟨c, rest, rfl⟩

theorem Truncated.gap_cases (hgap : Gap gap) (h : Truncated p (gap ++ c :: s)) :
    Gap p ∨ ∃ q, p = gap ++ c :: q ∧ Truncated q s := by
  rcases truncated_append.mp h with ⟨x, rest, rfl⟩ | ⟨q, rfl, hq⟩
  · exact .inl (List.forall_mem_append.mp hgap).1
  · rcases truncated_cons.mp hq with rfl | ⟨r, rfl, hr⟩
    · exact .inl (by rwa [List.append_nil])
    · exact .inr ⟨r, rfl, hr⟩

theorem Closed.truncated (h : Closed s) (hp : Truncated p s) : Closed p := by
  obtain ⟨c, rest, rfl⟩ := hp
  intro x hx
  obtain ⟨tail, rfl⟩ := List.head?_eq_some_iff.mp hx
  exact h x rfl

namespace Reader

/-- The reader finds that the text ends too early. -/
def Starves (r : Reader α) (cs : List Char) : Prop :=
  ∃ what, r.run cs = .error ⟨.unfinished what, 0⟩

/-- Nothing of the text is left behind the reader, if there is enough of it at all. -/
def Exhausts (r : Reader α) (cs : List Char) : Prop :=
  r.Starves cs ∨ ∃ a, r.run cs = .ok (a, [])

variable {r : Reader α} {f : α → Reader β} {cs rest : List Char} {a : α}

theorem Starves.of_eq {u : Reader α} (h : r.Starves cs) (hu : u.run rest = r.run cs) :
    u.Starves rest := by
  obtain ⟨what, h⟩ := h
  exact ⟨what, hu.trans h⟩

theorem Exhausts.of_eq {u : Reader α} (h : r.Exhausts cs) (hu : u.run rest = r.run cs) :
    u.Exhausts rest := by
  rcases h with h | ⟨a, h⟩
  · exact .inl (h.of_eq hu)
  · exact .inr ⟨a, hu.trans h⟩

theorem Starves.bind (h : r.Starves cs) (f : α → Reader β) : (r >>= f).Starves cs := by
  obtain ⟨what, h⟩ := h
  exact ⟨what, by rw [run_bind, h]⟩

theorem starves_bind_ok (h : r.run cs = .ok (a, rest)) (hf : (f a).Starves rest) :
    (r >>= f).Starves cs :=
  hf.of_eq (run_bind_ok h)

theorem exhausts_bind_ok (h : r.run cs = .ok (a, rest)) (hf : (f a).Exhausts rest) :
    (r >>= f).Exhausts cs :=
  hf.of_eq (run_bind_ok h)

theorem Exhausts.bind (h : r.Exhausts cs) (hf : ∀ a, (f a).Starves []) : (r >>= f).Starves cs := by
  rcases h with h | ⟨a, h⟩
  · exact h.bind f
  · exact starves_bind_ok h (hf a)

theorem Exhausts.map (h : r.Exhausts cs) (f : α → β) :
    (r >>= fun a ↦ pure (f a)).Exhausts cs := by
  rcases h with h | ⟨a, h⟩
  · exact .inl (h.bind _)
  · exact .inr ⟨f a, by rw [run_bind_ok h, run_pure]⟩

theorem starves_fail : (fail (.unfinished what) : Reader α).Starves [] :=
  ⟨what, rfl⟩

theorem starves_take : (take (.unfinished what)).Starves [] :=
  ⟨what, rfl⟩

theorem run_takeGap_end (h : Gap gap) : (takeWhile isGap).run gap = .ok (gap, []) := by
  have hrun : (takeWhile isGap).run (gap ++ []) = .ok (gap, []) := run_takeWhile h (by simp)
  rwa [List.append_nil] at hrun

theorem starves_takeNext (h : Gap gap) : (takeNext (.unfinished what)).Starves gap :=
  starves_bind_ok (run_takeGap_end h) starves_take

theorem eq_nil_of_run_peek (h : peek.run cs = .ok (none, rest)) : rest = [] := by
  have hrun : peek.run cs = .ok ((cs.dropWhile isGap).head?, cs.dropWhile isGap) := rfl
  rw [hrun] at h
  obtain ⟨hhead, rfl⟩ := Prod.mk.inj (Except.ok.inj h)
  exact List.head?_eq_none_iff.mp hhead

theorem run_peek_end (h : Gap gap) : peek.run gap = .ok (none, []) := by
  rw [peek, run_bind_ok (run_takeGap_end h)]
  rfl

variable {turn : σ → Reader (Turn σ β)} {ht : ∀ s, (turn s).Takes} {s t : σ}

theorem Starves.loop (h : (turn s).Starves cs) : (loop turn ht s).Starves cs := by
  obtain ⟨what, h⟩ := h
  exact ⟨what, by rw [run_loop, h]⟩

theorem starves_loop_again (h : (turn s).run cs = .ok (.again t, rest))
    (hloop : (loop turn ht t).Starves rest) : (loop turn ht s).Starves cs :=
  hloop.of_eq (run_loop_again h)

theorem Exhausts.loop {f : α → σ} (h : r.Exhausts rest)
    (hturn : (turn s).run cs = (do let a ← r; pure (.again (f a)) : Reader (Turn σ β)).run rest)
    (hend : ∀ t, (turn t).Starves []) : (Reader.loop turn ht s).Starves cs := by
  rcases h with hstop | ⟨a, hgo⟩
  · exact ((hstop.bind _).of_eq hturn).loop
  · exact starves_loop_again (hturn.trans (run_bind_ok hgo)) (hend _).loop

end Reader

namespace Quoted

variable {c : Char} {cs read : List Char}

theorem utf8Size_hexDigit : ∀ n < 16, (hexDigit n).utf8Size = 1 := by decide

theorem starves_unit {m n : ℕ} (hm : m < 16)
    (h : Truncated p ['0', '0', hexDigit m, hexDigit n]) : unit.Starves p := by
  have hzero : '0'.utf8Size = 1 := by decide
  have hdigit := utf8Size_hexDigit m hm
  simp only [truncated_cons, not_truncated_nil, and_false, exists_false, or_false] at h
  rcases h with rfl | ⟨q, rfl, rfl | ⟨q, rfl, rfl | ⟨q, rfl, rfl⟩⟩⟩ <;>
    exact ⟨.string, by simp [unit, unitOf, noUnit, byteSize, hzero, hdigit]⟩

theorem starves_turn_escape (h : (escape codePoint).Starves p) :
    (turn kept read).Starves ('\\' :: p) := by
  have hescape : (do let d ← escape codePoint; pure (.again (d :: read)) :
      Reader (Turn (List Char) (List Char))).Starves p := h.bind _
  refine hescape.of_eq ?_
  rw [turn, run_bind_ok (run_take _ _ _), if_neg (by decide), if_pos rfl]
  rfl

theorem starves_turn (h : Written c cs) (hp : Truncated p cs) :
    (turn kept read).Starves p := by
  cases h with
  | plain =>
    simp only [truncated_cons, not_truncated_nil, and_false, exists_false, or_false] at hp
    subst hp
    exact starves_take.bind _
  | letter =>
    simp only [truncated_cons, not_truncated_nil, and_false, exists_false, or_false] at hp
    rcases hp with rfl | ⟨q, rfl, rfl⟩
    · exact starves_take.bind _
    · exact starves_turn_escape (starves_take.bind _)
  | unit hc =>
    rw [truncated_cons] at hp
    rcases hp with rfl | ⟨q, rfl, hq⟩
    · exact starves_take.bind _
    rw [truncated_cons] at hq
    rcases hq with rfl | ⟨q, rfl, hq⟩
    · exact starves_turn_escape (starves_take.bind _)
    have hpoint : codePoint.Starves q := (starves_unit (by omega) hq).bind _
    exact starves_turn_escape (hpoint.of_eq (run_escape_unit _))

theorem starves_body {s : List Char} (h : Truncated p (s.flatMap encodeChar ++ ['"'])) :
    (loop (turn kept) (takes_turn kept) read).Starves p := by
  induction s generalizing p read with
  | nil =>
    rw [List.flatMap_nil, List.nil_append, truncated_cons] at h
    rcases h with rfl | ⟨q, -, hq⟩
    · exact (starves_take.bind _).loop
    · exact absurd hq not_truncated_nil
  | cons c s ih =>
    rw [List.flatMap_cons, List.append_assoc, truncated_append] at h
    rcases h with h | ⟨q, rfl, hq⟩
    · exact (starves_turn (written_encodeChar c) h).loop
    · exact starves_loop_again (run_turn (written_encodeChar c)) (ih hq)

theorem starves_text {s : List Char} (h : Truncated p (s.flatMap encodeChar ++ ['"'])) :
    text.Starves p :=
  (starves_body h).bind _

end Quoted

/-- Cut off within `v`, or within a gap in front of it, a text leaves nothing behind the reader. -/
def Notices (r : Reader α) (v : Value) : Prop :=
  ∀ (depth : Nat) (gap p : List Char), Gap gap → Truncated p (gap ++ v.form depth) → r.Exhausts p

variable {r : Reader α} {v : Value} {a : α}

theorem Notices.map (h : Notices r v) (f : α → β) : Notices (r >>= fun a ↦ pure (f a)) v :=
  fun depth gap p hgap hp ↦ (h depth gap p hgap hp).map f

theorem Notices.cases {depth : Nat} (h : Notices r v) (hread : Reads r v a) (hs : Closed s)
    (hp : Truncated p (v.form depth ++ s)) :
    r.Exhausts p ∨ ∃ q, r.run p = .ok (a, q) ∧ Truncated q s := by
  rcases truncated_append.mp hp with hcut | ⟨q, rfl, hq⟩
  · exact .inl (h depth [] p gap_nil hcut)
  · exact .inr ⟨q, hread.run (hs.truncated hq), hq⟩

section Scalars

variable {n : ℕ} {name : String}

theorem starves_head (h : Gap gap) : head.Starves gap :=
  (starves_takeNext h).bind _

theorem encode_eq (cs : List Char) :
    Quoted.encode cs = '"' :: (cs.flatMap Quoted.encodeChar ++ ['"']) :=
  rfl

theorem starves_quote {f : Char → Reader α} (hgap : Gap gap)
    (hf : ∀ q, Quoted.text.Starves q → (f '"').Starves q)
    (h : Truncated p (gap ++ Quoted.encode name.toList)) :
    (takeNext (.unfinished what) >>= f).Starves p := by
  rw [encode_eq] at h
  rcases h.gap_cases hgap with hp | ⟨q, rfl, hq⟩
  · exact (starves_takeNext hp).bind f
  · exact starves_bind_ok (run_takeNext _ hgap (by decide)) (hf q (Quoted.starves_text hq))

theorem starves_head_quoted (hgap : Gap gap)
    (h : Truncated p (gap ++ Quoted.encode name.toList)) : head.Starves p :=
  starves_quote hgap (fun _ hq ↦ hq.bind fun s ↦ pure (Found.string s)) h

theorem starves_word {w : List Char} (h : Truncated p w) : (word w).Starves p := by
  induction w generalizing p with
  | nil => exact absurd h not_truncated_nil
  | cons c w ih =>
    rcases truncated_cons.mp h with rfl | ⟨q, rfl, hq⟩
    · exact starves_take.bind _
    · have hword : (if c = c then word w else refuse c .misspelledWord).Starves q := by
        rw [if_pos rfl]
        exact ih hq
      exact starves_bind_ok (run_take _ _ _) hword

theorem starves_head_null (hgap : Gap gap) (h : Truncated p (gap ++ ['n', 'u', 'l', 'l'])) :
    head.Starves p := by
  rcases h.gap_cases hgap with hp | ⟨q, rfl, hq⟩
  · exact starves_head hp
  · have hword := (starves_word hq).bind fun _ ↦ (pure .null : Reader Found)
    exact hword.of_eq (run_head hgap rfl)

theorem exists_toDigits_of_truncated (h : Truncated p (Nat.toDigits 10 n)) (hp : p ≠ []) :
    ∃ m ≤ n, p = Nat.toDigits 10 m := by
  induction n using Nat.strong_induction_on with
  | _ n ih =>
    rw [Nat.toDigits_eq_if (by decide)] at h
    split at h
    · rcases truncated_cons.mp h with rfl | ⟨q, -, hq⟩
      · exact absurd rfl hp
      · exact absurd hq not_truncated_nil
    · rcases truncated_append.mp h with h | ⟨q, rfl, hq⟩
      · obtain ⟨m, hm, rfl⟩ := ih (n / 10) (by omega) h
        exact ⟨m, by omega, rfl⟩
      · rcases truncated_cons.mp hq with rfl | ⟨q, -, hq⟩
        · exact ⟨n / 10, by omega, List.append_nil _⟩
        · exact absurd hq not_truncated_nil

theorem notices_natural (hn : n ≤ Number.greatest) : Notices natural (.natural n) := by
  intro depth gap p hgap hp
  rw [form_natural] at hp
  rcases truncated_append.mp hp with ⟨c, rest, rfl⟩ | ⟨q, rfl, hq⟩
  · exact .inl ((starves_head (List.forall_mem_append.mp hgap).1).bind _)
  by_cases hnil : q = []
  · subst hnil
    rw [List.append_nil]
    exact .inl ((starves_head hgap).bind _)
  · obtain ⟨m, hm, rfl⟩ := exists_toDigits_of_truncated hq hnil
    have hrun := reads_natural (hm.trans hn) depth gap [] hgap (by simp [Closed])
    rw [form_natural, List.append_nil] at hrun
    exact .inr ⟨m, hrun⟩

theorem notices_optionalString (text : Option String) :
    Notices optionalString ((text.map Value.string).getD .null) := by
  intro depth gap p hgap hp
  cases text with
  | none =>
    rw [Option.map_none, Option.getD_none, form_null] at hp
    exact .inl ((starves_head_null hgap hp).bind _)
  | some s =>
    rw [Option.map_some, Option.getD_some, Value.form] at hp
    exact .inl ((starves_head_quoted hgap hp).bind _)

theorem notices_choice (choice : Choice α) (name : String) :
    Notices choice.read (.string name) := by
  intro depth gap p hgap hp
  rw [Value.form] at hp
  exact .inl (starves_quote hgap (fun _ hq ↦ hq.bind _) hp)

end Scalars

section Structures

variable {record : Record σ α} {s t : σ} {name : String} {fields : List (String × Value)}
  {depth : ℕ}

def NoticesFields (record : Record σ α) (fields : List (String × Value)) : Prop :=
  ∀ f ∈ fields, ∀ field, record.fields.find? (·.name == f.1) = some field →
    ∀ s, Notices (field.read s) f.2

theorem run_member_key {cs : List Char} : (record.member s).run (Quoted.encode name.toList ++ cs) =
    (record.entry s name).run cs := by
  refine (run_quote name _ _ gap_nil).trans ?_
  rw [if_pos rfl, run_bind_ok (Quoted.run_text name)]

theorem starves_colon (h : Gap p) : colon.Starves p :=
  (starves_takeNext h).bind _

theorem exhausts_member {field : RecordField σ}
    (hname : record.fields.find? (·.name == name) = some field) (hnew : field.isSet s = false)
    (hread : Notices (field.read s) v) (h : Truncated p (Value.fieldForm depth (name, v))) :
    (record.member s).Exhausts p := by
  have hform : Value.fieldForm depth (name, v) =
      Quoted.encode name.toList ++ ':' :: ([' '] ++ v.form depth) := by
    rw [Value.fieldForm]
    rfl
  have hentry : record.entry s name = (do colon; field.read s) := by
    simp [Record.entry, hname, hnew]
  rw [hform] at h
  rcases truncated_append.mp h with hkey | ⟨q, rfl, hq⟩
  · exact .inl (starves_quote gap_nil (fun _ hq ↦ hq.bind _) hkey)
  refine Exhausts.of_eq ?_ run_member_key
  rw [hentry]
  rcases truncated_cons.mp hq with rfl | ⟨q, rfl, hvalue⟩
  · exact .inl ((starves_colon gap_nil).bind _)
  · have hspace : Gap [' '] := List.forall_mem_singleton.mpr rfl
    exact exhausts_bind_ok run_colon (hread depth [' '] q hspace hvalue)

theorem member_cases {cs : List Char} {field : RecordField σ}
    (hname : record.fields.find? (·.name == name) = some field) (hnew : field.isSet s = false)
    (hread : Reads (field.read s) v t) (hnotice : Notices (field.read s) v) (hcs : Closed cs)
    (h : Truncated p (Value.fieldForm depth (name, v) ++ cs)) :
    (record.member s).Exhausts p ∨ ∃ q, (record.member s).run p = .ok (t, q) ∧ Truncated q cs := by
  rcases truncated_append.mp h with hcut | ⟨q, rfl, hq⟩
  · exact .inl (exhausts_member hname hnew hnotice hcut)
  · exact .inr ⟨q, run_member gap_nil hname hnew hread (hcs.truncated hq), hq⟩

theorem starves_memberTurn (h : Gap p) : (record.memberTurn s).Starves p :=
  (starves_takeNext h).bind _

theorem peek_truncated {cs : List Char} (hgap : Gap gap) (hcs : cs.head? = some c)
    (hc : isGap c = false) (h : Truncated p (gap ++ cs)) :
    ∃ next q, peek.run p = .ok (next, q) ∧ (next = none ∨ next = some c) ∧ Truncated q cs := by
  obtain ⟨tail, rfl⟩ := List.head?_eq_some_iff.mp hcs
  rcases h.gap_cases hgap with hp | ⟨q, rfl, hq⟩
  · exact ⟨none, [], run_peek_end hp, .inl rfl, truncated_cons.mpr (.inl rfl)⟩
  · exact ⟨some c, c :: q, run_peek hgap hc, .inr rfl, truncated_cons.mpr (.inr ⟨q, rfl, hq⟩)⟩

theorem head_fieldForm {cs : List Char} :
    (Value.fieldForm depth (name, v) ++ cs).head? = some '"' := by
  rw [fieldForm_append]
  rfl

theorem starves_behindField (hfill : Fills record s fields t)
    (hnotice : NoticesFields record fields) (h : Truncated p (behindField depth fields [])) :
    (loop record.memberTurn record.takes_memberTurn s).Starves p := by
  induction hfill generalizing p with
  | nil s =>
    rw [behindField_nil] at h
    rcases h.gap_cases (gap_newLine depth) with hp | ⟨q, -, hq⟩
    · exact (starves_memberTurn hp).loop
    · exact absurd hq not_truncated_nil
  | cons hname hnew hread hfill ih =>
    obtain ⟨hfirst, hfields⟩ := List.forall_mem_cons.mp hnotice
    rw [behindField_cons] at h
    rcases truncated_cons.mp h with rfl | ⟨q, rfl, hq⟩
    · exact (starves_memberTurn gap_nil).loop
    obtain ⟨next, rest, hpeek, hnext, hrest⟩ :=
      peek_truncated (gap_newLine _) head_fieldForm (by decide) hq
    rcases member_cases hname hnew hread (hfirst _ hname _) closed_behindField hrest with
      hcut | ⟨q, hmember, hcut⟩
    · exact hcut.loop (run_memberTurn_comma hpeek hnext) fun _ ↦ starves_memberTurn gap_nil
    · exact starves_loop_again ((run_memberTurn_comma hpeek hnext).trans (run_bind_ok hmember))
        (ih hfields hcut)

theorem starves_object {field : String × Value}
    (hfill : Fills record record.blank (field :: fields) s)
    (hnotice : NoticesFields record (field :: fields))
    (h : Truncated p (Value.newLine (depth + 1) ++
      (Value.fieldForm (depth + 1) field ++ behindField depth fields []))) :
    record.object.Starves p := by
  cases hfill with
  | cons hname hnew hread hfill =>
    obtain ⟨hfirst, hfields⟩ := List.forall_mem_cons.mp hnotice
    obtain ⟨next, rest, hpeek, hnext, hrest⟩ :=
      peek_truncated (gap_newLine _) head_fieldForm (by decide) h
    refine starves_bind_ok hpeek ?_
    rcases hnext with rfl | rfl
    · obtain rfl := eq_nil_of_run_peek hpeek
      exact starves_fail
    rcases member_cases hname hnew hread (hfirst _ hname _) closed_behindField hrest with
      hcut | ⟨q, hmember, hcut⟩
    · exact hcut.bind fun _ ↦ (starves_memberTurn gap_nil).loop
    · exact starves_bind_ok hmember (starves_behindField hfill hfields hcut)

theorem notices_record {field : String × Value}
    (hfill : Fills record record.blank (field :: fields) s)
    (hnotice : NoticesFields record (field :: fields)) :
    Notices record.read (.object (field :: fields)) := by
  intro depth gap p hgap hp
  rw [← List.append_nil (Value.form _ _), form_object] at hp
  rcases hp.gap_cases hgap with hp | ⟨q, rfl, hq⟩
  · exact .inl ((starves_head hp).bind _)
  · exact .inl (starves_bind_ok (run_head_object hgap) ((starves_object hfill hnotice hq).bind _))

theorem Opens.peek_truncated (hv : Opens v) {cs : List Char}
    (h : Truncated p (Value.newLine depth ++ (v.form depth ++ cs))) :
    ∃ next q, peek.run p = .ok (next, q) ∧ next ≠ some ']' ∧ Truncated q (v.form depth ++ cs) := by
  obtain ⟨c, tail, hform, hc, hend⟩ := hv depth
  have hhead : (v.form depth ++ cs).head? = some c := by
    rw [hform]
    rfl
  obtain ⟨next, q, hpeek, hnext, hq⟩ := Json.peek_truncated (gap_newLine depth) hhead hc h
  refine ⟨next, q, hpeek, ?_, hq⟩
  rintro rfl
  simp [hend.symm] at hnext

variable {item : Reader α} {toValue : α → Value} {as read : List α}

theorem starves_itemTurn (h : Gap p) : (Sequence.turn item read).Starves p :=
  (starves_takeNext h).bind _

theorem run_itemTurn_comma {cs rest : List Char} {next : Option Char}
    (hpeek : peek.run cs = .ok (next, rest)) (hnext : next ≠ some ']') :
    (Sequence.turn item read).run (',' :: cs) =
      (do let a ← item; pure (.again (a :: read)) : Reader (Turn (List α) (List α))).run rest := by
  rw [Sequence.turn, run_bind_ok (run_takeNext_cons _ (by decide)), if_neg (by decide),
    if_pos rfl, run_bind_ok hpeek]
  split
  · exact absurd rfl hnext
  · rfl

theorem starves_behindItem
    (h : ∀ a ∈ as, Opens (toValue a) ∧ Reads item (toValue a) a ∧ Notices item (toValue a))
    (hp : Truncated p (behindItem depth (as.map toValue) [])) :
    (loop (Sequence.turn item) (Sequence.takes_turn item) read).Starves p := by
  induction as generalizing p read with
  | nil =>
    rw [List.map_nil, behindItem_nil] at hp
    rcases hp.gap_cases (gap_newLine depth) with hp | ⟨q, -, hq⟩
    · exact (starves_itemTurn hp).loop
    · exact absurd hq not_truncated_nil
  | cons a as ih =>
    obtain ⟨⟨hopens, hread, hnotice⟩, has⟩ := List.forall_mem_cons.mp h
    rw [List.map_cons, behindItem_cons] at hp
    rcases truncated_cons.mp hp with rfl | ⟨q, rfl, hq⟩
    · exact (starves_itemTurn gap_nil).loop
    obtain ⟨next, rest, hpeek, hnext, hrest⟩ := hopens.peek_truncated hq
    rcases hnotice.cases hread closed_behindItem hrest with hcut | ⟨q, hitem, hcut⟩
    · exact hcut.loop (run_itemTurn_comma hpeek hnext) fun _ ↦ starves_itemTurn gap_nil
    · exact starves_loop_again ((run_itemTurn_comma hpeek hnext).trans (run_bind_ok hitem))
        (ih has hcut)

theorem starves_list
    (h : ∀ a ∈ as, Opens (toValue a) ∧ Reads item (toValue a) a ∧ Notices item (toValue a))
    (hp : Truncated p ((Value.list (as.map toValue)).form depth)) :
    (Sequence.read item).Starves p := by
  cases as with
  | nil =>
    rw [List.map_nil, Value.form] at hp
    rcases truncated_cons.mp hp with rfl | ⟨q, rfl, hq⟩
    · exact (starves_head gap_nil).bind _
    rcases truncated_cons.mp hq with rfl | ⟨r, -, hr⟩
    · have hitems : (Sequence.items item).Starves [] :=
        starves_bind_ok (run_peek_end gap_nil) starves_fail
      exact starves_bind_ok (run_head_list gap_nil) hitems
    · exact absurd hr not_truncated_nil
  | cons a as =>
    obtain ⟨⟨hopens, hread, hnotice⟩, has⟩ := List.forall_mem_cons.mp h
    rw [List.map_cons, ← List.append_nil (Value.form _ _), form_list] at hp
    rcases truncated_cons.mp hp with rfl | ⟨q, rfl, hq⟩
    · exact (starves_head gap_nil).bind _
    refine starves_bind_ok (run_head_list gap_nil) ?_
    obtain ⟨next, rest, hpeek, hnext, hrest⟩ := hopens.peek_truncated hq
    refine starves_bind_ok hpeek ?_
    split
    · obtain rfl := eq_nil_of_run_peek hpeek
      exact starves_fail
    · exact absurd rfl hnext
    · rcases hnotice.cases hread closed_behindItem hrest with hcut | ⟨q, hitem, hcut⟩
      · exact hcut.bind fun _ ↦ (starves_itemTurn gap_nil).loop
      · exact starves_bind_ok hitem (starves_behindItem has hcut)

end Structures

end Lexemes.Json
