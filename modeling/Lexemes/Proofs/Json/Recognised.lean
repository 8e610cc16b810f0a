import Lexemes.Json.Variant
import Lexemes.Proofs.Json.Ignored

namespace Lexemes.Json

open Reader

variable {α β : Type} {c : Char} {cs gap rest rest' v : List Char}

/-- Of all values, the reader takes those that stand for something, and takes them for that. -/
structure Recognises (r : Reader α) (stands : α → List Char → Prop) : Prop where
  accepts : ∀ {a v}, stands a v → Accepts r v a
  only : ∀ {a v gap rest rest'}, ValueText v → Gap gap → Closed rest →
    r.run (gap ++ (v ++ rest)) = .ok (a, rest') → stands a v

theorem closed_nil : Closed [] := by simp [Closed]

theorem Accepts.unique {r : Reader α} {a b : α} (ha : Accepts r v a) (hb : Accepts r v b) :
    a = b := by
  have hrun := ha [] [] gap_nil closed_nil
  rw [hb [] [] gap_nil closed_nil] at hrun
  cases hrun
  rfl

theorem Recognises.of_accepts {r : Reader α} {stands : α → List Char → Prop} {a : α}
    (h : Recognises r stands) (hv : ValueText v) (ha : Accepts r v a) : stands a v :=
  h.only hv gap_nil closed_nil (ha [] [] gap_nil closed_nil)

theorem Recognises.map {r : Reader α} {stands : α → List Char → Prop} (h : Recognises r stands)
    (f : α → β) : Recognises (r >>= fun a ↦ pure (f a)) fun b v ↦ ∃ a, stands a v ∧ f a = b where
  accepts := by
    rintro _ v ⟨a, ha, rfl⟩ gap rest hgap hrest
    rw [run_bind_ok (h.accepts ha gap rest hgap hrest), run_pure]
  only := by
    intro b v gap rest rest' hv hgap hrest hrun
    obtain ⟨a, mid, hr, hpure⟩ := run_bind_eq_ok_iff.mp hrun
    cases hpure
    exact ⟨a, h.only hv hgap hrest hr, rfl⟩

section Words

theorem opens_of_run_head {found : Found} (hc : isGap c = false)
    (h : head.run (c :: cs) = .ok (found, rest)) :
    (found = .null → c = 'n') ∧ ∀ b, found = .boolean b → c = 't' ∨ c = 'f' := by
  rw [head, run_bind_ok (run_takeNext_cons _ hc)] at h
  split_ifs at h with hquote hn ht hf
  · obtain ⟨s, rfl⟩ := exists_of_run_map h
    simp
  · obtain ⟨_, rfl⟩ := exists_of_run_map h
    simp [hn]
  · obtain ⟨_, rfl⟩ := exists_of_run_map h
    simp [ht]
  · obtain ⟨_, rfl⟩ := exists_of_run_map h
    simp [hf]
  · cases h
    simp
  · cases h
    simp
  · obtain ⟨n, rfl⟩ := exists_of_run_map h
    simp
  · cases h

theorem exists_run_head {f : Found → Reader α} {a : α} {tail : List Char} (hgap : Gap gap)
    (hc : isGap c = false) (h : (head >>= f).run (gap ++ (c :: tail ++ rest)) = .ok (a, rest')) :
    ∃ found mid, (f found).run mid = .ok (a, rest') ∧ (found = .null → c = 'n') ∧
      ∀ b, found = .boolean b → c = 't' ∨ c = 'f' := by
  obtain ⟨found, mid, hhead, hf⟩ := run_bind_eq_ok_iff.mp h
  rw [List.cons_append, run_head hgap hc] at hhead
  exact ⟨found, mid, hf, opens_of_run_head hc hhead⟩

theorem accepts_boolean (b : Bool) : Accepts boolean (toString b).toList b := by
  intro gap rest hgap _
  cases b with
  | false =>
    have hhead : head.run (gap ++ 'f' :: 'a' :: 'l' :: 's' :: 'e' :: rest) =
        .ok (.boolean false, rest) := run_head hgap rfl
    exact run_bind_ok hhead
  | true =>
    have hhead : head.run (gap ++ 't' :: 'r' :: 'u' :: 'e' :: rest) =
        .ok (.boolean true, rest) := run_head hgap rfl
    exact run_bind_ok hhead

theorem recognises_boolean : Recognises boolean fun b v ↦ v = (toString b).toList where
  accepts := by
    rintro b _ rfl
    exact accepts_boolean b
  only := by
    intro b v gap rest rest' hv hgap hrest hrun
    obtain ⟨c, tail, hopens, hc, -, -, ⟨b', rfl⟩ | ⟨ht, hf⟩⟩ := hv.opens
    · rw [accepts_boolean b' gap rest hgap hrest] at hrun
      cases hrun
      rfl
    · subst hopens
      obtain ⟨found, mid, hfound, -, hboolean⟩ := exists_run_head hgap hc hrun
      split at hfound
      · exact absurd (hboolean _ rfl) (not_or.mpr ⟨ht, hf⟩)
      · cases hfound

theorem recognises_null : Recognises null fun _ v ↦ v = ['n', 'u', 'l', 'l'] where
  accepts := by
    rintro _ _ rfl gap rest hgap _
    exact run_bind_ok (run_head_null hgap)
  only := by
    intro _ v gap rest rest' hv hgap hrest hrun
    obtain ⟨c, tail, rfl, hc, -, hnull | hn, -⟩ := hv.opens
    · exact hnull
    · obtain ⟨found, mid, hfound, hnull, -⟩ := exists_run_head hgap hc hrun
      split at hfound
      · exact absurd (hnull rfl) hn
      · cases hfound

end Words

section Choices

/-- A name as a string, or as the only key of an object, with the value null. -/
inductive ChoiceText (name : String) : List Char → Prop
  | string {body : List Char} (h : Spells body name.toList) : ChoiceText name (quoted body)
  | keyed {m : Member} (h : m.Names name) (hnull : m.value.text = ['n', 'u', 'l', 'l']) :
      ChoiceText name ('{' :: (m.whole ++ ['}']))

variable {choice : Choice α} {a b : α} {name : String} {m : Member}

theorem run_pick (h : choice.ofName? name = some a) :
    (ofExcept (choice.pick name)).run cs = .ok (a, cs) := by
  rw [Choice.pick, h]
  rfl

theorem eq_of_run_pick (h : (ofExcept (choice.pick name)).run cs = .ok (a, rest)) :
    choice.ofName? name = some a ∧ rest = cs := by
  obtain ⟨hpick, hrest⟩ := eq_of_run_ofExcept h
  rw [Choice.pick] at hpick
  split at hpick
  · next b hb => exact ⟨hb.trans (congrArg some (Except.ok.inj hpick)), hrest⟩
  · cases hpick

def Choice.behindKey (a : α) : Reader α := do
  null
  let close ← takeNext (.unfinished .object)
  if close = '}' then pure a else stop close.utf8Size .valueExpected

theorem run_keyed (h : m.Names name) : choice.keyed.run (m.whole ++ rest) =
    (do let a ← ofExcept (choice.pick name); colon; Choice.behindKey a : Reader α).run
      (m.key.back ++ ':' :: (m.value.whole ++ rest)) := by
  rw [Choice.keyed, run_key_of_names (if_pos rfl) h]
  rfl

theorem accepts_choice (hname : choice.ofName? name = some a) (h : ChoiceText name v) :
    Accepts choice.read v a := by
  intro gap rest hgap _
  cases h with
  | string h =>
    rw [quoted_append, Choice.read, run_bind_ok (run_takeNext _ hgap rfl), if_pos rfl,
      run_bind_ok (Quoted.run_text_of_spells h), String.ofList_toList, run_pick hname]
  | @keyed m h hnull =>
    have hvalue : null.run (m.value.whole ++ '}' :: rest) =
        .ok ((), m.value.back ++ '}' :: rest) := by
      have hclosed : Closed (m.value.back ++ '}' :: rest) :=
        closed_gap m.value.gap_back (closed_cons (by decide))
      rw [Padded.whole_append]
      exact recognises_null.accepts hnull _ _ m.value.gap_front hclosed
    rw [List.cons_append, List.append_assoc, List.singleton_append, Choice.read,
      run_bind_ok (run_takeNext _ hgap rfl), if_neg (by decide), if_pos rfl, run_keyed h,
      run_bind_ok (run_pick hname), run_bind_ok (run_colon_gap m.key.gap_back), Choice.behindKey,
      run_bind_ok hvalue, run_bind_ok (run_takeNext _ m.value.gap_back rfl), if_pos rfl, run_pure]

theorem of_run_behindKey (hv : ValueText m.value.text) (hrest : Closed rest)
    (h : (Choice.behindKey a).run (m.value.whole ++ rest) = .ok (b, rest')) :
    b = a ∧ m.value.text = ['n', 'u', 'l', 'l'] ∧
      (takeNext (.unfinished .object)).run rest = .ok ('}', rest') := by
  have hclosed : Closed (m.value.back ++ rest) := closed_gap m.value.gap_back hrest
  obtain ⟨_, mid, hnull, h⟩ := run_bind_eq_ok_iff.mp h
  rw [Padded.whole_append] at hnull
  have htext := recognises_null.only hv m.value.gap_front hclosed hnull
  rw [recognises_null.accepts htext _ _ m.value.gap_front hclosed] at hnull
  cases hnull
  rw [run_takeNext_gap _ m.value.gap_back] at h
  obtain ⟨close, _, hclose, h⟩ := run_bind_eq_ok_iff.mp h
  split_ifs at h with hend
  · cases h
    exact ⟨rfl, htext, hend ▸ hclose⟩
  · cases h

theorem exists_choiceText_of_run_keyed {front : List Char} {members : List Member}
    (hfront : Gap front) (h : ∀ m ∈ members, ValueText m.value.text)
    (hrun : choice.keyed.run (joined front (members.map Member.whole) ++ '}' :: rest) =
      .ok (a, rest')) :
    ∃ name, choice.ofName? name = some a ∧
      ChoiceText name ('{' :: (joined front (members.map Member.whole) ++ ['}'])) := by
  cases members with
  | nil =>
    rw [List.map_nil, joined, Choice.keyed, run_bind_ok (run_takeNext _ hfront rfl)] at hrun
    cases hrun
  | cons m ms =>
    obtain ⟨hm, -⟩ := List.forall_mem_cons.mp h
    rw [joined_cons] at hrun
    obtain ⟨name, hname⟩ := exists_names_of_run_key (if_pos rfl) hrun
    rw [run_keyed hname] at hrun
    obtain ⟨b, _, hpick, hrun⟩ := run_bind_eq_ok_iff.mp hrun
    obtain ⟨hb, rfl⟩ := eq_of_run_pick hpick
    rw [run_bind_ok (run_colon_gap m.key.gap_back)] at hrun
    obtain ⟨rfl, hnull, hclose⟩ := of_run_behindKey hm closed_furtherMembers hrun
    cases ms with
    | nil =>
      rw [List.map_singleton, joined_singleton]
      exact ⟨name, hb, .keyed hname hnull⟩
    | cons => cases hclose

theorem run_choice_ne_ok (hgap : Gap gap) (hc : isGap c = false) (hquote : c ≠ '"')
    (hobject : c ≠ '{') : choice.read.run (gap ++ c :: cs) ≠ .ok (a, rest) := by
  rw [Choice.read, run_bind_ok (run_takeNext _ hgap hc), if_neg hquote, if_neg hobject, run_refuse]
  simp

theorem recognises_choice :
    Recognises choice.read fun a v ↦ ∃ name, choice.ofName? name = some a ∧ ChoiceText name v where
  accepts := by
    rintro a v ⟨name, hname, h⟩
    exact accepts_choice hname h
  only := by
    intro a v gap rest rest' hv hgap hrest hrun
    cases hv with
    | null => exact absurd hrun (run_choice_ne_ok hgap rfl (by decide) (by decide))
    | boolean b =>
      cases b <;> exact absurd hrun (run_choice_ne_ok hgap rfl (by decide) (by decide))
    | number h =>
      obtain ⟨c, tail, rfl, hc⟩ := h.opens
      exact absurd hrun (run_choice_ne_ok hgap (isGap_of_opens_number hc)
        (ne_of_opens_number hc (by decide) rfl) (ne_of_opens_number hc (by decide) rfl))
    | string h =>
      rw [quoted_append, Choice.read, run_bind_ok (run_takeNext _ hgap rfl), if_pos rfl] at hrun
      obtain ⟨name, _, htext, hpick⟩ := run_bind_eq_ok_iff.mp hrun
      exact ⟨name, (eq_of_run_pick hpick).1, .string (Quoted.spells_of_run_text h htext)⟩
    | list => exact absurd hrun (run_choice_ne_ok hgap rfl (by decide) (by decide))
    | object hfront h =>
      rw [List.cons_append, List.append_assoc, List.singleton_append, Choice.read,
        run_bind_ok (run_takeNext _ hgap rfl), if_neg (by decide), if_pos rfl] at hrun
      exact exists_choiceText_of_run_keyed hfront h hrun

end Choices

end Lexemes.Json
