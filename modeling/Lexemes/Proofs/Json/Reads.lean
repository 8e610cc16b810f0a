import Lexemes.Json.Record
import Lexemes.Json.Sequence
import Lexemes.Json.Value
import Lexemes.Json.Variant
import Lexemes.Proofs.Json.Numeral

namespace Lexemes.Json

open Reader

def Gap (cs : List Char) : Prop :=
  ∀ c ∈ cs, isGap c

variable {α β σ : Type} {r : Reader α} {v : Value} {a : α} {c : Char} {cs gap rest : List Char}

/-- The reader takes `v` for `a`, at any depth, behind any gap and whatever follows. -/
def Reads (r : Reader α) (v : Value) (a : α) : Prop :=
  ∀ (depth : Nat) (gap rest : List Char), Gap gap → Closed rest →
    r.run (gap ++ (v.form depth ++ rest)) = .ok (a, rest)

theorem gap_nil : Gap [] := by simp [Gap]

theorem gap_newLine (depth : Nat) : Gap (Value.newLine depth) := by
  intro c hc
  rcases List.mem_cons.mp hc with rfl | hc
  · rfl
  · rw [List.eq_of_mem_replicate hc]
    rfl

theorem closed_newLine (depth : Nat) : Closed (Value.newLine depth ++ rest) := by
  intro c hc
  cases hc
  decide

theorem closed_cons (hc : c.isDigit = false ∧ c ≠ '.' ∧ c ≠ 'e' ∧ c ≠ 'E') :
    Closed (c :: rest) := by
  intro x hx
  cases hx
  exact hc

theorem run_takeGap (hgap : Gap gap) (hc : isGap c = false) :
    (takeWhile isGap).run (gap ++ c :: rest) = .ok (gap, c :: rest) :=
  run_takeWhile hgap (by simpa using hc)

theorem run_takeNext (cut : Flaw) (hgap : Gap gap) (hc : isGap c = false) :
    (takeNext cut).run (gap ++ c :: rest) = .ok (c, rest) := by
  rw [takeNext, run_bind_ok (run_takeGap hgap hc)]
  rfl

theorem run_takeNext_cons (cut : Flaw) (hc : isGap c = false) :
    (takeNext cut).run (c :: rest) = .ok (c, rest) :=
  run_takeNext cut gap_nil hc

theorem run_peek (hgap : Gap gap) (hc : isGap c = false) :
    peek.run (gap ++ c :: rest) = .ok (some c, c :: rest) := by
  rw [peek, run_bind_ok (run_takeGap hgap hc)]
  rfl

theorem Reads.run {depth : Nat} (h : Reads r v a) (hrest : Closed rest) :
    r.run (v.form depth ++ rest) = .ok (a, rest) :=
  h depth [] rest gap_nil hrest

theorem Reads.map (h : Reads r v a) (f : α → β) :
    Reads (r >>= fun a ↦ pure (f a)) v (f a) := by
  intro depth gap rest hgap hrest
  rw [run_bind_ok (h depth gap rest hgap hrest)]
  rfl

section Scalars

variable {n : ℕ}

theorem run_quote (s : String) (cut : Flaw) (f : Char → Reader α) (hgap : Gap gap) :
    (takeNext cut >>= f).run (gap ++ (Quoted.encode s.toList ++ rest)) =
      (f '"').run (s.toList.flatMap Quoted.encodeChar ++ '"' :: rest) := by
  have htext : Quoted.encode s.toList ++ rest =
      '"' :: (s.toList.flatMap Quoted.encodeChar ++ '"' :: rest) := by simp [Quoted.encode]
  rw [htext, run_bind_ok (run_takeNext cut hgap (by decide))]

theorem run_head (hgap : Gap gap) (hc : isGap c = false) :
    head.run (gap ++ c :: rest) = head.run (c :: rest) := by
  rw [head, run_bind_ok (run_takeNext _ hgap hc), run_bind_ok (run_takeNext_cons _ hc)]

theorem run_head_quoted (s : String) (hgap : Gap gap) :
    head.run (gap ++ (Quoted.encode s.toList ++ rest)) = .ok (.string s, rest) := by
  rw [head, run_quote s _ _ hgap, if_pos rfl, run_bind_ok (Quoted.run_text s)]
  rfl

theorem run_head_null (hgap : Gap gap) :
    head.run (gap ++ ('n' :: 'u' :: 'l' :: 'l' :: rest)) = .ok (.null, rest) :=
  run_head hgap rfl

theorem run_head_list (hgap : Gap gap) : head.run (gap ++ '[' :: rest) = .ok (.list, rest) :=
  run_head hgap rfl

theorem run_head_object (hgap : Gap gap) : head.run (gap ++ '{' :: rest) = .ok (.object, rest) :=
  run_head hgap rfl

theorem ne_of_isDigit {d : Char} (hc : c.isDigit) (hd : d.isDigit = false) : c ≠ d := by
  intro h
  subst h
  simp [hc] at hd

theorem isGap_of_isDigit (hc : c.isDigit) : isGap c = false := by
  simp only [isGap, Bool.or_eq_false_iff, beq_eq_false_iff_ne]
  exact ⟨⟨⟨ne_of_isDigit hc rfl, ne_of_isDigit hc rfl⟩, ne_of_isDigit hc rfl⟩, ne_of_isDigit hc rfl⟩

theorem run_head_natural (hn : n ≤ Number.greatest) (hgap : Gap gap) (hrest : Closed rest) :
    head.run (gap ++ (Nat.toDigits 10 n ++ rest)) = .ok (.number (.whole n), rest) := by
  obtain ⟨c, cs, hcs⟩ := List.exists_cons_of_ne_nil (Nat.toDigits_ne_nil (n := n) (b := 10))
  have hc : c.isDigit := Numeral.isDigit_toDigits c (by rw [hcs]; exact List.mem_cons_self)
  rw [hcs, List.cons_append, head, run_bind_ok (run_takeNext _ hgap (isGap_of_isDigit hc)),
    if_neg (ne_of_isDigit hc rfl), if_neg (ne_of_isDigit hc rfl), if_neg (ne_of_isDigit hc rfl),
    if_neg (ne_of_isDigit hc rfl), if_neg (ne_of_isDigit hc rfl), if_neg (ne_of_isDigit hc rfl),
    if_pos (.inr hc), run_bind_ok (Numeral.run_readNumber hn hcs hrest)]
  rfl

theorem form_natural (depth : ℕ) : (Value.natural n).form depth = Nat.toDigits 10 n := by
  simp [Value.natural, Value.form, Number.text, Int.repr_eq_if]

theorem form_null (depth : ℕ) : Value.null.form depth = ['n', 'u', 'l', 'l'] := by
  rw [Value.form]
  rfl

theorem reads_natural (hn : n ≤ Number.greatest) : Reads natural (.natural n) n := by
  intro depth gap rest hgap hrest
  rw [form_natural, natural, run_bind_ok (run_head_natural hn hgap hrest)]
  simp

theorem reads_optionalString (text : Option String) :
    Reads optionalString ((text.map Value.string).getD .null) text := by
  intro depth gap rest hgap hrest
  cases text with
  | none =>
    have hhead : head.run (gap ++ (Value.null.form depth ++ rest)) = .ok (.null, rest) := by
      rw [form_null]
      exact run_head_null hgap
    exact run_bind_ok hhead
  | some s =>
    have hhead : head.run (gap ++ ((Value.string s).form depth ++ rest)) =
        .ok (.string s, rest) := by
      rw [Value.form]
      exact run_head_quoted s hgap
    exact run_bind_ok hhead

theorem reads_choice {choice : Choice α} {name : String} (h : choice.ofName? name = some a) :
    Reads choice.read (.string name) a := by
  intro depth gap rest hgap hrest
  have hpick : choice.pick name = .ok a := by rw [Choice.pick, h]
  rw [Value.form, Choice.read, run_quote name _ _ hgap, if_pos rfl,
    run_bind_ok (Quoted.run_text name), hpick]
  rfl

end Scalars

section Structures

/-- The record `r` is filled in from `s` to `t` by the fields of an object, one after the other. -/
inductive Fills (r : Record σ α) : σ → List (String × Value) → σ → Prop
  | nil (s : σ) : Fills r s [] s
  | cons {s t u : σ} {name : String} {v : Value} {field : RecordField σ}
      {fields : List (String × Value)} (hname : r.fields.find? (·.name == name) = some field)
      (hnew : field.isSet s = false) (hread : Reads (field.read s) v t) (h : Fills r t fields u) :
      Fills r s ((name, v) :: fields) u

variable {record : Record σ α} {s t : σ} {name : String} {fields : List (String × Value)}
  {depth : ℕ}

theorem run_colon : colon.run (':' :: rest) = .ok ((), rest) := rfl

theorem fieldForm_append : Value.fieldForm depth (name, v) ++ rest =
    Quoted.encode name.toList ++ (':' :: ' ' :: (v.form depth ++ rest)) := by
  simp [Value.fieldForm]

theorem run_member {field : RecordField σ} (hgap : Gap gap)
    (hname : record.fields.find? (·.name == name) = some field) (hnew : field.isSet s = false)
    (hread : Reads (field.read s) v t) (hrest : Closed rest) :
    (record.member s).run (gap ++ (Value.fieldForm depth (name, v) ++ rest)) = .ok (t, rest) := by
  have hspace : Gap [' '] := List.forall_mem_singleton.mpr rfl
  have hentry : (record.entry s name).run (':' :: ' ' :: (v.form depth ++ rest)) =
      .ok (t, rest) := by
    simp only [Record.entry, hname, hnew, Bool.false_eq_true, if_false]
    rw [run_bind_ok run_colon]
    exact hread depth [' '] rest hspace hrest
  rw [fieldForm_append, Record.member, run_quote name _ _ hgap, if_pos rfl,
    run_bind_ok (Quoted.run_text name), hentry]

/-- What is written behind a field of an object that `rest` follows: more fields and the end. -/
def behindField (depth : ℕ) (fields : List (String × Value)) (rest : List Char) : List Char :=
  Value.moreFields (depth + 1) fields ++ (Value.newLine depth ++ '}' :: rest)

theorem behindField_nil : behindField depth [] rest = Value.newLine depth ++ '}' :: rest := by
  rw [behindField, Value.moreFields, List.nil_append]

theorem behindField_cons (field : String × Value) : behindField depth (field :: fields) rest =
    ',' :: (Value.newLine (depth + 1) ++
      (Value.fieldForm (depth + 1) field ++ behindField depth fields rest)) := by
  simp [behindField, Value.moreFields]

theorem form_object (field : String × Value) :
    (Value.object (field :: fields)).form depth ++ rest =
      '{' :: (Value.newLine (depth + 1) ++
        (Value.fieldForm (depth + 1) field ++ behindField depth fields rest)) := by
  simp [Value.form, behindField]

theorem closed_behindField : Closed (behindField depth fields rest) := by
  cases fields with
  | nil =>
    rw [behindField_nil]
    exact closed_newLine depth
  | cons field fields =>
    rw [behindField_cons]
    exact closed_cons (by decide)

theorem run_peek_key : peek.run (Value.newLine depth ++ (Value.fieldForm depth (name, v) ++ rest)) =
    .ok (some '"', Value.fieldForm depth (name, v) ++ rest) := by
  rw [fieldForm_append]
  exact run_peek (gap_newLine depth) (by decide)

theorem run_memberTurn_end : (record.memberTurn s).run (Value.newLine depth ++ '}' :: rest) =
    .ok (.done s, rest) := by
  rw [Record.memberTurn, run_bind_ok (run_takeNext _ (gap_newLine depth) (by decide))]
  rfl

theorem run_memberTurn_comma {cs rest : List Char} {next : Option Char}
    (hpeek : peek.run cs = .ok (next, rest)) (hnext : next = none ∨ next = some '"') :
    (record.memberTurn s).run (',' :: cs) =
      (do let t ← record.member s; pure (.again t) : Reader (Turn σ σ)).run rest := by
  rw [Record.memberTurn, run_bind_ok (run_takeNext_cons _ (by decide)), if_neg (by decide),
    if_pos rfl, run_bind_ok hpeek]
  rcases hnext with rfl | rfl <;> rfl

theorem run_memberTurn {field : RecordField σ}
    (hname : record.fields.find? (·.name == name) = some field) (hnew : field.isSet s = false)
    (hread : Reads (field.read s) v t) (hrest : Closed rest) :
    (record.memberTurn s).run
      (',' :: (Value.newLine depth ++ (Value.fieldForm depth (name, v) ++ rest))) =
        .ok (.again t, rest) := by
  have hmember : (record.member s).run (Value.fieldForm depth (name, v) ++ rest) = .ok (t, rest) :=
    run_member gap_nil hname hnew hread hrest
  rw [run_memberTurn_comma run_peek_key (.inr rfl), run_bind_ok hmember, run_pure]

theorem run_behindField (h : Fills record s fields t) :
    (loop record.memberTurn record.takes_memberTurn s).run (behindField depth fields rest) =
      .ok (t, rest) := by
  induction h with
  | nil s =>
    rw [behindField_nil]
    exact run_loop_done run_memberTurn_end
  | cons hname hnew hread h ih =>
    rw [behindField_cons, run_loop_again (run_memberTurn hname hnew hread closed_behindField), ih]

theorem run_object {field : String × Value}
    (h : Fills record record.blank (field :: fields) s) :
    record.object.run (Value.newLine (depth + 1) ++
      (Value.fieldForm (depth + 1) field ++ behindField depth fields rest)) = .ok (s, rest) := by
  cases h with
  | @cons _ t _ name v _ _ hname hnew hread h =>
    have hfirst : (record.member record.blank).run
        (Value.fieldForm (depth + 1) (name, v) ++ behindField depth fields rest) =
          .ok (t, behindField depth fields rest) :=
      run_member gap_nil hname hnew hread closed_behindField
    rw [Record.object, run_bind_ok run_peek_key]
    exact (run_bind_ok hfirst).trans (run_behindField h)

theorem reads_record {field : String × Value} (h : Fills record record.blank (field :: fields) s)
    (hfinish : record.finish s = .ok a) : Reads record.read (.object (field :: fields)) a := by
  intro depth gap rest hgap _
  rw [form_object, Record.read, run_bind_ok (run_head_object hgap)]
  refine (run_bind_ok (run_object h)).trans ?_
  rw [hfinish]
  rfl

/-- The value begins with a character of its own that does not end a list. -/
def Opens (v : Value) : Prop :=
  ∀ depth, ∃ c cs, v.form depth = c :: cs ∧ isGap c = false ∧ c ≠ ']'

theorem opens_object (fields : List (String × Value)) : Opens (.object fields) := by
  intro depth
  cases fields with
  | nil => exact ⟨'{', ['}'], by simp [Value.form], rfl, by decide⟩
  | cons field fields => exact ⟨'{', _, by simp [Value.form]; rfl, rfl, by decide⟩

variable {item : Reader α} {toValue : α → Value} {as read : List α} {values : List Value}

def behindItem (depth : ℕ) (values : List Value) (rest : List Char) : List Char :=
  Value.moreItems (depth + 1) values ++ (Value.newLine depth ++ ']' :: rest)

theorem behindItem_nil : behindItem depth [] rest = Value.newLine depth ++ ']' :: rest := by
  rw [behindItem, Value.moreItems, List.nil_append]

theorem behindItem_cons : behindItem depth (v :: values) rest =
    ',' :: (Value.newLine (depth + 1) ++ (v.form (depth + 1) ++ behindItem depth values rest)) := by
  simp [behindItem, Value.moreItems]

theorem form_list : (Value.list (v :: values)).form depth ++ rest =
    '[' :: (Value.newLine (depth + 1) ++ (v.form (depth + 1) ++ behindItem depth values rest)) := by
  simp [Value.form, behindItem]

theorem closed_behindItem : Closed (behindItem depth values rest) := by
  cases values with
  | nil =>
    rw [behindItem_nil]
    exact closed_newLine depth
  | cons v values =>
    rw [behindItem_cons]
    exact closed_cons (by decide)

theorem run_peek_value (hv : Opens v) (depth : ℕ) (rest : List Char) :
    ∃ c ≠ ']', peek.run (Value.newLine depth ++ (v.form depth ++ rest)) =
      .ok (some c, v.form depth ++ rest) := by
  obtain ⟨c, cs, hform, hc, hend⟩ := hv depth
  rw [hform]
  exact ⟨c, hend, run_peek (gap_newLine depth) hc⟩

theorem run_itemTurn_end : (Sequence.turn item read).run (Value.newLine depth ++ ']' :: rest) =
    .ok (.done read.reverse, rest) := by
  rw [Sequence.turn, run_bind_ok (run_takeNext _ (gap_newLine depth) (by decide))]
  rfl

theorem run_itemTurn (hv : Opens v) (hread : Reads item v a) (hrest : Closed rest) :
    (Sequence.turn item read).run (',' :: (Value.newLine depth ++ (v.form depth ++ rest))) =
      .ok (.again (a :: read), rest) := by
  obtain ⟨c, hc, hpeek⟩ := run_peek_value hv depth rest
  rw [Sequence.turn, run_bind_ok (run_takeNext_cons _ (by decide)), if_neg (by decide),
    if_pos rfl, run_bind_ok hpeek]
  split
  · next h => exact absurd (Option.some.inj h) hc
  · exact run_bind_ok (hread.run hrest)

theorem run_behindItem (h : ∀ a ∈ as, Opens (toValue a) ∧ Reads item (toValue a) a) :
    (loop (Sequence.turn item) (Sequence.takes_turn item) read).run
      (behindItem depth (as.map toValue) rest) = .ok (read.reverse ++ as, rest) := by
  induction as generalizing read with
  | nil =>
    rw [List.map_nil, behindItem_nil, List.append_nil]
    exact run_loop_done run_itemTurn_end
  | cons a as ih =>
    obtain ⟨⟨hopens, hread⟩, has⟩ := List.forall_mem_cons.mp h
    rw [List.map_cons, behindItem_cons,
      run_loop_again (run_itemTurn hopens hread closed_behindItem), ih has, List.reverse_cons,
      List.append_assoc, List.singleton_append]

theorem run_items (hopens : Opens (toValue a)) (hread : Reads item (toValue a) a)
    (h : ∀ a ∈ as, Opens (toValue a) ∧ Reads item (toValue a) a) :
    (Sequence.items item).run (Value.newLine (depth + 1) ++ ((toValue a).form (depth + 1) ++
      behindItem depth (as.map toValue) rest)) = .ok (a :: as, rest) := by
  obtain ⟨c, hc, hpeek⟩ := run_peek_value hopens (depth + 1)
    (behindItem depth (as.map toValue) rest)
  rw [Sequence.items, run_bind_ok hpeek]
  split
  · next h => exact absurd h nofun
  · next h => exact absurd (Option.some.inj h) hc
  · refine (run_bind_ok (hread.run closed_behindItem)).trans ?_
    exact run_behindItem h

theorem reads_list (h : ∀ a ∈ as, Opens (toValue a) ∧ Reads item (toValue a) a) :
    Reads (Sequence.read item) (.list (as.map toValue)) as := by
  intro depth gap rest hgap _
  cases as with
  | nil =>
    have hitems : (Sequence.items item).run (']' :: rest) = .ok ([], rest) :=
      run_bind_ok (run_peek gap_nil (by decide))
    rw [List.map_nil, Value.form, List.cons_append, Sequence.read,
      run_bind_ok (run_head_list hgap)]
    exact hitems
  | cons a as =>
    obtain ⟨⟨hopens, hread⟩, has⟩ := List.forall_mem_cons.mp h
    rw [List.map_cons, form_list, Sequence.read, run_bind_ok (run_head_list hgap)]
    exact run_items hopens hread has

end Structures

end Lexemes.Json
