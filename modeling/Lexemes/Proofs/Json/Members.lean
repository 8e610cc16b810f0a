import Lexemes.Json.Record
import Lexemes.Proofs.Json.Recognised
import Mathlib.Data.List.Pairwise

namespace Lexemes.Json

open Reader

variable {α σ : Type} {r : Record σ α} {s t : σ} {a : α} {m : Member} {ms : List Member}
  {name : String} {gap rest rest' : List Char} {text : String}

/-- The member makes `t` of `s`, what the record has been filled in with. -/
inductive Puts (r : Record σ α) (s : σ) (m : Member) : σ → Prop
  | known {name : String} {field : RecordField σ} {t : σ} (hname : m.Names name)
      (hfield : r.fields.find? (·.name == name) = some field) (hnew : field.isSet s = false)
      (hread : Accepts (field.read s) m.value.text t) : Puts r s m t
  | unknown {name : String} (hname : m.Names name)
      (hfield : r.fields.find? (·.name == name) = none) (hvalue : ValueText m.value.text) :
      Puts r s m s

inductive PutsAll (r : Record σ α) : σ → List Member → σ → Prop
  | nil (s : σ) : PutsAll r s [] s
  | cons {s t u : σ} {m : Member} {ms : List Member} (h : Puts r s m t)
      (hs : PutsAll r t ms u) : PutsAll r s (m :: ms) u

/-- For every field of the record it is known which values it takes. -/
def Record.Recognises (r : Record σ α) : Prop :=
  ∀ field ∈ r.fields, ∀ s, ∃ stands, Json.Recognises (field.read s) stands

section Member

theorem run_member_gap {cs : List Char} (hgap : Gap gap) :
    (r.member s).run (gap ++ cs) = (r.member s).run cs :=
  run_takeNext_gap _ hgap

theorem run_member_of_names (h : m.Names name) : (r.member s).run (m.whole ++ rest) =
    (r.entry s name).run (m.key.back ++ ':' :: (m.value.whole ++ rest)) :=
  run_key_of_names (if_pos rfl) h

theorem exists_names_of_run_member (h : (r.member s).run (m.whole ++ rest) = .ok (t, rest')) :
    ∃ name, m.Names name :=
  exists_names_of_run_key (if_pos rfl) h

theorem run_member_of_puts (h : Puts r s m t) (hrest : Closed rest) :
    (r.member s).run (m.whole ++ rest) = .ok (t, m.value.back ++ rest) := by
  have hclosed : Closed (m.value.back ++ rest) := closed_gap m.value.gap_back hrest
  cases h with
  | known hname hfield hnew hread =>
    rw [run_member_of_names hname]
    simp only [Record.entry, hfield, hnew, Bool.false_eq_true, if_false]
    rw [run_bind_ok (run_colon_gap m.key.gap_back), Padded.whole_append,
      hread _ _ m.value.gap_front hclosed]
  | unknown hname hfield hvalue =>
    rw [run_member_of_names hname]
    simp only [Record.entry, hfield]
    rw [run_bind_ok (run_colon_gap m.key.gap_back), Padded.whole_append,
      run_bind_ok (accepts_ignored hvalue _ _ m.value.gap_front hclosed), run_pure]

theorem run_repeated_ne_ok : (Record.repeated name : Reader σ).run rest ≠ .ok (s, rest') := by
  intro h
  obtain ⟨next, mid, -, hfail⟩ := run_bind_eq_ok_iff.mp h
  split at hfail <;> cases hfail

theorem puts_of_run_member (hr : r.Recognises) (hvalue : ValueText m.value.text)
    (hrest : Closed rest) (h : (r.member s).run (m.whole ++ rest) = .ok (t, rest')) :
    Puts r s m t ∧ rest' = m.value.back ++ rest := by
  have hclosed : Closed (m.value.back ++ rest) := closed_gap m.value.gap_back hrest
  obtain ⟨name, hname⟩ := exists_names_of_run_member h
  cases hfield : r.fields.find? (·.name == name) with
  | none =>
    have hput : Puts r s m s := .unknown hname hfield hvalue
    rw [run_member_of_puts hput hrest] at h
    cases h
    exact ⟨hput, rfl⟩
  | some field =>
    rw [run_member_of_names hname] at h
    simp only [Record.entry, hfield] at h
    split_ifs at h with hset
    · exact absurd h run_repeated_ne_ok
    rw [run_bind_ok (run_colon_gap m.key.gap_back), Padded.whole_append] at h
    obtain ⟨stands, hstands⟩ := hr field (List.mem_of_find?_eq_some hfield) s
    have ht := hstands.only hvalue m.value.gap_front hclosed h
    rw [hstands.accepts ht _ _ m.value.gap_front hclosed] at h
    cases h
    exact ⟨.known hname hfield (by simpa using hset) (hstands.accepts ht), rfl⟩

end Member

section Object

theorem run_memberLoop_gap {cs : List Char} (hgap : Gap gap) :
    (loop r.memberTurn r.takes_memberTurn s).run (gap ++ cs) =
      (loop r.memberTurn r.takes_memberTurn s).run cs := by
  have hturn : (r.memberTurn s).run (gap ++ cs) = (r.memberTurn s).run cs :=
    run_takeNext_gap _ hgap
  rw [run_loop, run_loop, hturn]

theorem run_peek_member : peek.run (m.whole ++ rest) = .ok (some '"',
    '"' :: (m.key.text ++ '"' :: (m.key.back ++ ':' :: (m.value.whole ++ rest)))) := by
  rw [Member.whole_append, run_peek m.key.gap_front rfl]

theorem run_member_bind_front {β : Type} (f : σ → Reader β) : (r.member s >>= f).run
      ('"' :: (m.key.text ++ '"' :: (m.key.back ++ ':' :: (m.value.whole ++ rest)))) =
    (r.member s >>= f).run (m.whole ++ rest) := by
  rw [run_bind, run_bind, Member.whole_append, run_member_gap m.key.gap_front]

theorem run_memberTurn_member : (r.memberTurn s).run (',' :: (m.whole ++ rest)) =
    (do let t ← r.member s; pure (.again t) : Reader (Turn σ σ)).run (m.whole ++ rest) := by
  rw [run_memberTurn_comma run_peek_member (.inr rfl), run_member_bind_front]

theorem run_object_member : r.object.run (m.whole ++ rest) =
    (do
      let s ← r.member r.blank
      loop r.memberTurn r.takes_memberTurn s).run (m.whole ++ rest) := by
  rw [Record.object, run_bind_ok run_peek_member]
  exact run_member_bind_front _

theorem run_memberTurn_end_nil : (r.memberTurn s).run (furtherMembers [] ++ '}' :: rest) =
    .ok (.done s, rest) :=
  rfl

theorem run_memberLoop_of_putsAll (h : PutsAll r s ms t) :
    (loop r.memberTurn r.takes_memberTurn s).run (furtherMembers ms ++ '}' :: rest) =
      .ok (t, rest) := by
  induction h with
  | nil s => exact run_loop_done run_memberTurn_end_nil
  | @cons s t _ m ms h hs ih =>
    have hturn : (r.memberTurn s).run (',' :: (m.whole ++ (furtherMembers ms ++ '}' :: rest))) =
        .ok (.again t, m.value.back ++ (furtherMembers ms ++ '}' :: rest)) := by
      rw [run_memberTurn_member, run_bind_ok (run_member_of_puts h closed_furtherMembers), run_pure]
    rw [furtherMembers_cons, run_loop_again hturn, run_memberLoop_gap m.value.gap_back, ih]

theorem putsAll_of_run_memberLoop (hr : r.Recognises) (hvalues : ∀ m ∈ ms, ValueText m.value.text)
    (h : (loop r.memberTurn r.takes_memberTurn s).run (furtherMembers ms ++ '}' :: rest) =
      .ok (t, rest')) : PutsAll r s ms t := by
  induction ms generalizing s with
  | nil =>
    rw [run_loop_done run_memberTurn_end_nil] at h
    cases h
    exact .nil _
  | cons m ms ih =>
    obtain ⟨hm, hms⟩ := List.forall_mem_cons.mp hvalues
    rw [furtherMembers_cons] at h
    obtain ⟨_, _, hturn⟩ := exists_turn_of_run_loop h
    have hmember := hturn
    rw [run_memberTurn_member] at hmember
    obtain ⟨u, _, hmember, hagain⟩ := run_bind_eq_ok_iff.mp hmember
    obtain ⟨hput, rfl⟩ := puts_of_run_member hr hm closed_furtherMembers hmember
    cases hagain
    rw [run_loop_again hturn, run_memberLoop_gap m.value.gap_back] at h
    exact .cons hput (ih hms h)

theorem run_object_of_putsAll (hgap : Gap gap) (h : PutsAll r r.blank ms t) :
    r.object.run (joined gap (ms.map Member.whole) ++ '}' :: rest) = .ok (t, rest) := by
  cases h with
  | nil =>
    rw [List.map_nil, joined, Record.object, run_bind_ok (run_peek hgap rfl)]
    rfl
  | cons h hs =>
    rw [joined_cons, run_object_member]
    refine (run_bind_ok (run_member_of_puts h closed_furtherMembers)).trans ?_
    rw [run_memberLoop_gap (Padded.gap_back _), run_memberLoop_of_putsAll hs]

theorem putsAll_of_run_object (hr : r.Recognises) (hgap : Gap gap)
    (hvalues : ∀ m ∈ ms, ValueText m.value.text)
    (h : r.object.run (joined gap (ms.map Member.whole) ++ '}' :: rest) = .ok (t, rest')) :
    PutsAll r r.blank ms t := by
  cases ms with
  | nil =>
    rw [List.map_nil, joined, Record.object, run_bind_ok (run_peek hgap rfl)] at h
    cases h
    exact .nil r.blank
  | cons m ms =>
    obtain ⟨hm, hms⟩ := List.forall_mem_cons.mp hvalues
    rw [joined_cons, run_object_member] at h
    obtain ⟨u, _, hmember, hloop⟩ := run_bind_eq_ok_iff.mp h
    obtain ⟨hput, rfl⟩ := puts_of_run_member hr hm closed_furtherMembers hmember
    rw [run_memberLoop_gap m.value.gap_back] at hloop
    exact .cons hput (putsAll_of_run_memberLoop hr hms hloop)

/-- An object is read just if its members, one after the other, can be put into the record. -/
theorem readAll_eq_ok_iff (hr : r.Recognises) (htext : ObjectText ms text.toList) :
    r.read.readAll text = .ok a ↔ ∃ s, PutsAll r r.blank ms s ∧ r.finish s = .ok a := by
  generalize hcs : text.toList = cs at htext
  obtain @⟨front, gap, back, hfront, hgap, hback, hvalues⟩ := htext
  have hread : r.read.run text.toList = (do let s ← r.object; ofExcept (r.finish s) : Reader α).run
      (joined gap (ms.map Member.whole) ++ '}' :: back) := by
    rw [hcs, Record.read, run_bind_ok (run_head_object hfront)]
  have hend : back.all isGap = true := List.all_eq_true.mpr hback
  rw [readAll, hread]
  constructor
  · intro h
    split at h
    · cases h
    · next b rest hrun =>
      obtain ⟨s, _, hobject, hfinish⟩ := run_bind_eq_ok_iff.mp hrun
      split_ifs at h
      cases h
      exact ⟨s, putsAll_of_run_object hr hgap hvalues hobject, (eq_of_run_ofExcept hfinish).1⟩
  · rintro ⟨s, hs, hfinish⟩
    rw [run_bind_ok (run_object_of_putsAll hgap hs), hfinish]
    exact if_pos hend

end Object

section Field

variable {β : Type} {stands : β → List Char → Prop} {b default : β} {o : Option β}

inductive Sets (name : String) (stands : β → List Char → Prop) (m : Member) :
    Option β → Option β → Prop
  | gives {b : β} (hname : m.Names name) (hb : stands b m.value.text) :
      Sets name stands m none (some b)
  | keeps {o : Option β} (hname : ¬ m.Names name) : Sets name stands m o o

inductive SetsAll (name : String) (stands : β → List Char → Prop) :
    Option β → List Member → Option β → Prop
  | nil (o : Option β) : SetsAll name stands o [] o
  | cons {o p q : Option β} {m : Member} {ms : List Member} (h : Sets name stands m o p)
      (hs : SetsAll name stands p ms q) : SetsAll name stands o (m :: ms) q

/-- The members name the field at most once, and with a value of its type. -/
structure Settles (name : String) (stands : β → List Char → Prop) (ms : List Member) : Prop where
  once : ms.Pairwise fun m m' ↦ ¬ (m.Names name ∧ m'.Names name)
  typed : ∀ m ∈ ms, m.Names name → ∃ b, stands b m.value.text

/-- What the members give the field for its value; if none of them names it, it has its default. -/
inductive Gives (name : String) (stands : β → List Char → Prop) (default : β) (ms : List Member) :
    β → Prop
  | value {m : Member} {b : β} (hm : m ∈ ms) (hname : m.Names name) (hb : stands b m.value.text) :
      Gives name stands default ms b
  | default (h : ∀ m ∈ ms, ¬ m.Names name) : Gives name stands default ms default

variable {p : Option β}

theorem Sets.of_names (h : Sets name stands m o p) (hname : m.Names name) :
    o = none ∧ ∃ b, stands b m.value.text ∧ p = some b := by
  cases h with
  | gives _ hb => exact ⟨rfl, _, hb, rfl⟩
  | keeps hnot => exact absurd hname hnot

theorem Sets.of_not_names (h : Sets name stands m o p) (hnot : ¬ m.Names name) : p = o := by
  cases h with
  | gives hname => exact absurd hname hnot
  | keeps => rfl

theorem setsAll_nil_iff : SetsAll name stands p [] o ↔ o = p := by
  constructor
  · rintro ⟨⟩
    rfl
  · rintro rfl
    exact .nil o

theorem setsAll_cons_iff : SetsAll name stands p (m :: ms) o ↔
    ∃ q, Sets name stands m p q ∧ SetsAll name stands q ms o := by
  constructor
  · rintro (_ | ⟨hset, hs⟩)
    exact ⟨_, hset, hs⟩
  · rintro ⟨q, hset, hs⟩
    exact .cons hset hs

theorem setsAll_cons_of_not_names (h : ¬ m.Names name) :
    SetsAll name stands p (m :: ms) o ↔ SetsAll name stands p ms o := by
  rw [setsAll_cons_iff]
  constructor
  · rintro ⟨q, hset, hs⟩
    obtain rfl := hset.of_not_names h
    exact hs
  · exact fun hs ↦ ⟨p, .keeps h, hs⟩

theorem setsAll_some_iff : SetsAll name stands (some b) ms o ↔
    (∀ m ∈ ms, ¬ m.Names name) ∧ o = some b := by
  induction ms with
  | nil => simp [setsAll_nil_iff]
  | cons m ms ih =>
    by_cases hname : m.Names name
    · constructor
      · intro h
        obtain ⟨_, hset, -⟩ := setsAll_cons_iff.mp h
        cases (hset.of_names hname).1
      · exact fun h ↦ absurd hname (h.1 m List.mem_cons_self)
    · rw [setsAll_cons_of_not_names hname, ih, List.forall_mem_cons, and_iff_right hname]

theorem setsAll_cons_of_names (h : m.Names name) : SetsAll name stands none (m :: ms) o ↔
    ∃ b, stands b m.value.text ∧ (∀ m' ∈ ms, ¬ m'.Names name) ∧ o = some b := by
  rw [setsAll_cons_iff]
  constructor
  · rintro ⟨q, hset, hs⟩
    obtain ⟨-, b, hb, rfl⟩ := hset.of_names h
    exact ⟨b, hb, setsAll_some_iff.mp hs⟩
  · rintro ⟨b, hb, hs⟩
    exact ⟨some b, .gives h hb, setsAll_some_iff.mpr hs⟩

theorem settles_of_forall_not_names (h : ∀ m ∈ ms, ¬ m.Names name) : Settles name stands ms where
  once := List.pairwise_of_forall_mem_list fun m hm _ _ hboth ↦ h m hm hboth.1
  typed m hm hname := absurd hname (h m hm)

theorem settles_cons_of_names (h : m.Names name) : Settles name stands (m :: ms) ↔
    (∃ b, stands b m.value.text) ∧ ∀ m' ∈ ms, ¬ m'.Names name := by
  constructor
  · rintro ⟨honce, htyped⟩
    obtain ⟨hfirst, -⟩ := List.pairwise_cons.mp honce
    exact ⟨htyped m List.mem_cons_self h, fun m' hm' hname ↦ hfirst m' hm' ⟨h, hname⟩⟩
  · rintro ⟨hvalue, hnames⟩
    have hsettles : Settles name stands ms := settles_of_forall_not_names hnames
    exact ⟨List.pairwise_cons.mpr ⟨fun m' hm' hboth ↦ hnames m' hm' hboth.2, hsettles.once⟩,
      List.forall_mem_cons.mpr ⟨fun _ ↦ hvalue, hsettles.typed⟩⟩

theorem settles_cons_of_not_names (h : ¬ m.Names name) :
    Settles name stands (m :: ms) ↔ Settles name stands ms := by
  constructor
  · rintro ⟨honce, htyped⟩
    exact ⟨(List.pairwise_cons.mp honce).2, (List.forall_mem_cons.mp htyped).2⟩
  · rintro ⟨honce, htyped⟩
    exact ⟨List.pairwise_cons.mpr ⟨fun _ _ hboth ↦ h hboth.1, honce⟩,
      List.forall_mem_cons.mpr ⟨fun hname ↦ absurd hname h, htyped⟩⟩

theorem exists_setsAll_iff : (∃ o, SetsAll name stands none ms o) ↔ Settles name stands ms := by
  induction ms with
  | nil => exact ⟨fun _ ↦ ⟨.nil, by simp⟩, fun _ ↦ ⟨none, .nil _⟩⟩
  | cons m ms ih =>
    by_cases hname : m.Names name
    · simp only [settles_cons_of_names hname, setsAll_cons_of_names hname]
      constructor
      · rintro ⟨_, b, hb, hnames, -⟩
        exact ⟨⟨b, hb⟩, hnames⟩
      · rintro ⟨⟨b, hb⟩, hnames⟩
        exact ⟨some b, b, hb, hnames, rfl⟩
    · simp only [settles_cons_of_not_names hname, setsAll_cons_of_not_names hname, ih]

theorem gives_of_setsAll (h : SetsAll name stands none ms o) :
    Gives name stands default ms (o.getD default) := by
  induction ms with
  | nil =>
    cases h
    exact .default (by simp)
  | cons m ms ih =>
    by_cases hname : m.Names name
    · obtain ⟨b, hb, -, rfl⟩ := (setsAll_cons_of_names hname).mp h
      exact .value List.mem_cons_self hname hb
    · have hgives := ih ((setsAll_cons_of_not_names hname).mp h)
      generalize o.getD default = b at hgives ⊢
      cases hgives with
      | value hm hname' hb => exact .value (List.mem_cons_of_mem m hm) hname' hb
      | default hnames => exact .default (List.forall_mem_cons.mpr ⟨hname, hnames⟩)

theorem Settles.perm {ms' : List Member} (h : Settles name stands ms) (hperm : ms.Perm ms') :
    Settles name stands ms' where
  once := h.once.perm hperm fun hnot hboth ↦ hnot hboth.symm
  typed m hm := h.typed m (hperm.mem_iff.mpr hm)

theorem Gives.perm {ms' : List Member} (h : Gives name stands default ms b) (hperm : ms.Perm ms') :
    Gives name stands default ms' b := by
  cases h with
  | value hm hname hb => exact .value (hperm.mem_iff.mp hm) hname hb
  | default hnames => exact .default fun m hm ↦ hnames m (hperm.mem_iff.mpr hm)

theorem Settles.unique {b' : β} (h : Settles name stands ms)
    (hstands : ∀ v b b', stands b v → stands b' v → b = b') (hb : Gives name stands default ms b)
    (hb' : Gives name stands default ms b') : b = b' := by
  cases hb with
  | @value m _ hm hname hvalue =>
    cases hb' with
    | @value m' _ hm' hname' hvalue' =>
      have hsame : m = m' := by
        have : Std.Symm fun m m' : Member ↦ ¬ (m.Names name ∧ m'.Names name) :=
          ⟨fun _ _ hnot hboth ↦ hnot hboth.symm⟩
        by_contra hne
        exact h.once.forall hm hm' hne ⟨hname, hname'⟩
      subst hsame
      exact hstands _ _ _ hvalue hvalue'
    | default hnames => exact absurd hname (hnames _ hm)
  | default hnames =>
    cases hb' with
    | value hm hname => exact absurd hname (hnames _ hm)
    | default => rfl

end Field

end Lexemes.Json
