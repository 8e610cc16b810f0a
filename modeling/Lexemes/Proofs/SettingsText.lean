import Lexemes.Proofs.Json.Members
import Lexemes.Proofs.Precedence

namespace Lexemes.Settings

open Json

def FormatText (f : DumpFormat) (v : List Char) : Prop :=
  ChoiceText f.name v

def SwitchText (b : Bool) (v : List Char) : Prop :=
  v = (toString b).toList

/-- Every key is a name in some spelling, and each of the four known ones stands there once at most,
with a value of its type. -/
structure Conforms (ms : List Member) : Prop where
  named : ∀ m ∈ ms, ∃ name, m.Names name
  format : Settles "format" FormatText ms
  positions : Settles "positions" SwitchText ms
  skipComments : Settles "skip_comments" SwitchText ms
  strict : Settles "strict" SwitchText ms

/-- The defaults, overlaid with the values of the known keys. -/
structure Overlay (ms : List Member) (s : Settings) : Prop where
  format : Gives "format" FormatText .text ms s.format
  positions : Gives "positions" SwitchText false ms s.positions
  skipComments : Gives "skip_comments" SwitchText false ms s.skipComments
  strict : Gives "strict" SwitchText false ms s.strict

inductive Field
  | format | positions | skipComments | strict
  deriving DecidableEq

namespace Field

abbrev Value : Field → Type
  | format => DumpFormat
  | _ => Bool

def name : Field → String
  | format => "format"
  | positions => "positions"
  | skipComments => "skip_comments"
  | strict => "strict"

def stands : (i : Field) → i.Value → List Char → Prop
  | format => FormatText
  | positions | skipComments | strict => SwitchText

def reader : (i : Field) → Reader i.Value
  | format => DumpFormat.choice.read
  | positions | skipComments | strict => boolean

def get : (i : Field) → Given → Option i.Value
  | format, g => g.format
  | positions, g => g.positions
  | skipComments, g => g.skipComments
  | strict, g => g.strict

def set : (i : Field) → i.Value → Given → Given
  | format, f, g => { g with format := some f }
  | positions, b, g => { g with positions := some b }
  | skipComments, b, g => { g with skipComments := some b }
  | strict, b, g => { g with strict := some b }

def toRecordField (i : Field) : RecordField Given :=
  ⟨i.name, fun g ↦ (i.get g).isSome, fun g ↦ do
    let b ← i.reader
    pure (i.set b g)⟩

variable {i j : Field} {g g' : Given}

def assemble (given : (i : Field) → Option i.Value) : Given :=
  ⟨given format, given positions, given skipComments, given strict⟩

theorem get_assemble (given : (i : Field) → Option i.Value) : i.get (assemble given) = given i := by
  cases i <;> rfl

theorem get_set (b : i.Value) : i.get (i.set b g) = some b := by
  cases i <;> rfl

theorem get_set_of_ne (b : i.Value) (h : j ≠ i) : j.get (i.set b g) = j.get g := by
  cases i <;> cases j <;> first | rfl | exact absurd rfl h

theorem ext_get (h : ∀ i : Field, i.get g = i.get g') : g = g' := by
  obtain ⟨f, p, c, s⟩ := g
  obtain ⟨f', p', c', s'⟩ := g'
  obtain rfl : f = f' := h format
  obtain rfl : p = p' := h positions
  obtain rfl : c = c' := h skipComments
  obtain rfl : s = s' := h strict
  rfl

theorem name_ne (h : j ≠ i) : i.name ≠ j.name := by
  revert h
  cases i <;> cases j <;> decide

theorem record_fields :
    record.fields = [format, positions, skipComments, strict].map toRecordField :=
  rfl

theorem exists_toRecordField {field : RecordField Given} (h : field ∈ record.fields) :
    ∃ i : Field, i.toRecordField = field := by
  rw [record_fields] at h
  obtain ⟨i, -, hi⟩ := List.mem_map.mp h
  exact ⟨i, hi⟩

theorem find?_name (i : Field) :
    record.fields.find? (·.name == i.name) = some i.toRecordField := by
  cases i <;> rfl

theorem find?_eq_none {name : String} (h : ∀ i : Field, i.name ≠ name) :
    record.fields.find? (·.name == name) = none := by
  refine List.find?_eq_none.mpr fun field hfield ↦ ?_
  obtain ⟨i, rfl⟩ := exists_toRecordField hfield
  simpa [toRecordField] using h i

end Field

variable {g g' : Given} {m : Member} {ms ms' : List Member} {s s' : Settings} {text text' : String}

theorem recognises_format : Recognises DumpFormat.choice.read FormatText where
  accepts h := recognises_choice.accepts ⟨_, ofName?_eq_some_iff.mpr rfl, h⟩
  only hv hgap hrest hrun := by
    obtain ⟨name, hname, h⟩ := recognises_choice.only hv hgap hrest hrun
    obtain rfl := ofName?_eq_some_iff.mp hname
    exact h

theorem Field.recognises (i : Field) : Recognises i.reader i.stands := by
  cases i with
  | format => exact recognises_format
  | positions | skipComments | strict => exact recognises_boolean

theorem recognises_record : record.Recognises := by
  intro field hfield g
  obtain ⟨i, rfl⟩ := Field.exists_toRecordField hfield
  exact ⟨_, i.recognises.map _⟩

theorem puts_iff (hv : ValueText m.value.text) : Puts record g m g' ↔
    (∃ name, m.Names name) ∧ ∀ i : Field, Sets i.name i.stands m (i.get g) (i.get g') := by
  constructor
  · intro h
    cases h with
    | @known name field _ hname hfield hnew hread =>
      obtain ⟨i, rfl⟩ := Field.exists_toRecordField (List.mem_of_find?_eq_some hfield)
      have hsame := List.find?_some hfield
      obtain rfl : i.name = name := beq_iff_eq.mp hsame
      obtain ⟨b, hb, rfl⟩ := (i.recognises.map _).of_accepts hv hread
      have hnone : i.get g = none := by simpa [Field.toRecordField] using hnew
      refine ⟨⟨_, hname⟩, fun j ↦ ?_⟩
      by_cases hj : j = i
      · subst hj
        rw [Field.get_set, hnone]
        exact .gives hname hb
      · rw [Field.get_set_of_ne b hj]
        exact .keeps (hname.not_names (Field.name_ne hj))
    | unknown hname hfield =>
      refine ⟨⟨_, hname⟩, fun i ↦ .keeps (hname.not_names ?_)⟩
      rintro rfl
      rw [Field.find?_name] at hfield
      cases hfield
  · rintro ⟨⟨name, hname⟩, hsets⟩
    by_cases hknown : ∃ i : Field, i.name = name
    · obtain ⟨i, rfl⟩ := hknown
      obtain ⟨hnone, b, hb, hsome⟩ := (hsets i).of_names hname
      have hset : i.set b g = g' := by
        refine Field.ext_get fun j ↦ ?_
        by_cases hj : j = i
        · subst hj
          rw [Field.get_set, hsome]
        · rw [Field.get_set_of_ne b hj, (hsets j).of_not_names (hname.not_names (Field.name_ne hj))]
      exact .known hname i.find?_name (by simp [Field.toRecordField, hnone])
        ((i.recognises.map _).accepts ⟨b, hb, hset⟩)
    · have hunknown : ∀ i : Field, i.name ≠ name := not_exists.mp hknown
      obtain rfl : g' = g := Field.ext_get fun i ↦
        (hsets i).of_not_names (hname.not_names (hunknown i).symm)
      exact .unknown hname (Field.find?_eq_none hunknown) hv

theorem putsAll_iff (hv : ∀ m ∈ ms, ValueText m.value.text) : PutsAll record g ms g' ↔
    (∀ m ∈ ms, ∃ name, m.Names name) ∧
      ∀ i : Field, SetsAll i.name i.stands (i.get g) ms (i.get g') := by
  induction ms generalizing g with
  | nil =>
    constructor
    · rintro ⟨⟩
      exact ⟨by simp, fun i ↦ .nil _⟩
    · rintro ⟨-, hsets⟩
      obtain rfl : g' = g := Field.ext_get fun i ↦ setsAll_nil_iff.mp (hsets i)
      exact .nil g'
  | cons m ms ih =>
    obtain ⟨hm, hms⟩ := List.forall_mem_cons.mp hv
    constructor
    · rintro (_ | ⟨hput, hputs⟩)
      obtain ⟨hname, hset⟩ := (puts_iff hm).mp hput
      obtain ⟨hnames, hsets⟩ := (ih hms).mp hputs
      exact ⟨List.forall_mem_cons.mpr ⟨hname, hnames⟩, fun i ↦ .cons (hset i) (hsets i)⟩
    · rintro ⟨hnames, hsets⟩
      obtain ⟨hname, hnames⟩ := List.forall_mem_cons.mp hnames
      choose given hset hrest using fun i ↦ setsAll_cons_iff.mp (hsets i)
      have hput : Puts record g m (Field.assemble given) := by
        refine (puts_iff hm).mpr ⟨hname, fun i ↦ ?_⟩
        rw [Field.get_assemble]
        exact hset i
      refine .cons hput ((ih hms).mpr ⟨hnames, fun i ↦ ?_⟩)
      rw [Field.get_assemble]
      exact hrest i

theorem get_blank (i : Field) : i.get {} = none := by
  cases i <;> rfl

theorem conforms_iff : Conforms ms ↔
    (∀ m ∈ ms, ∃ name, m.Names name) ∧ ∀ i : Field, Settles i.name i.stands ms := by
  constructor
  · intro h
    refine ⟨h.named, fun i ↦ ?_⟩
    cases i with
    | format => exact h.format
    | positions => exact h.positions
    | skipComments => exact h.skipComments
    | strict => exact h.strict
  · rintro ⟨hnamed, hsettles⟩
    exact ⟨hnamed, hsettles .format, hsettles .positions, hsettles .skipComments, hsettles .strict⟩

theorem exists_putsAll_iff (hv : ∀ m ∈ ms, ValueText m.value.text) :
    (∃ g, PutsAll record {} ms g) ↔ Conforms ms := by
  simp only [putsAll_iff hv, get_blank, conforms_iff, ← exists_setsAll_iff]
  constructor
  · rintro ⟨g, hnamed, hsets⟩
    exact ⟨hnamed, fun i ↦ ⟨i.get g, hsets i⟩⟩
  · rintro ⟨hnamed, hsets⟩
    choose given hgiven using hsets
    refine ⟨Field.assemble given, hnamed, fun i ↦ ?_⟩
    rw [Field.get_assemble]
    exact hgiven i

theorem overlay_of_putsAll (hv : ∀ m ∈ ms, ValueText m.value.text) (h : PutsAll record {} ms g) :
    Overlay ms g.orDefault := by
  obtain ⟨-, hsets⟩ := (putsAll_iff hv).mp h
  exact ⟨gives_of_setsAll (hsets .format), gives_of_setsAll (hsets .positions),
    gives_of_setsAll (hsets .skipComments), gives_of_setsAll (hsets .strict)⟩

theorem ofJson_eq_ok_iff (h : ObjectText ms text.toList) :
    ofJson text = .ok s ↔ ∃ g, PutsAll record {} ms g ∧ g.orDefault = s := by
  refine (readAll_eq_ok_iff recognises_record h).trans (exists_congr fun g ↦ and_congr_right' ?_)
  exact ⟨Except.ok.inj, congrArg Except.ok⟩

theorem Conforms.perm (h : Conforms ms) (hperm : ms.Perm ms') : Conforms ms' where
  named m hm := h.named m (hperm.mem_iff.mpr hm)
  format := h.format.perm hperm
  positions := h.positions.perm hperm
  skipComments := h.skipComments.perm hperm
  strict := h.strict.perm hperm

theorem Overlay.perm (h : Overlay ms s) (hperm : ms.Perm ms') : Overlay ms' s where
  format := h.format.perm hperm
  positions := h.positions.perm hperm
  skipComments := h.skipComments.perm hperm
  strict := h.strict.perm hperm

theorem Overlay.unique (hms : Conforms ms) (h : Overlay ms s) (h' : Overlay ms s') : s = s' := by
  have hformat (v : List Char) (f g : DumpFormat) (hf : FormatText f v) (hg : FormatText g v) :
      f = g := (recognises_format.accepts hf).unique (recognises_format.accepts hg)
  have hswitch (v : List Char) (b c : Bool) (hb : SwitchText b v) (hc : SwitchText c v) :
      b = c := (recognises_boolean.accepts hb).unique (recognises_boolean.accepts hc)
  obtain ⟨f, p, c, t⟩ := s
  obtain ⟨f', p', c', t'⟩ := s'
  obtain rfl := hms.format.unique hformat h.format h'.format
  obtain rfl := hms.positions.unique hswitch h.positions h'.positions
  obtain rfl := hms.skipComments.unique hswitch h.skipComments h'.skipComments
  obtain rfl := hms.strict.unique hswitch h.strict h'.strict
  rfl

theorem exists_overlay (h : ObjectText ms text.toList) (hms : Conforms ms) :
    ∃ s, ofJson text = .ok s ∧ Overlay ms s := by
  have hv := h.valueText
  obtain ⟨g, hg⟩ := (exists_putsAll_iff hv).mpr hms
  exact ⟨g.orDefault, (ofJson_eq_ok_iff h).mpr ⟨g, hg, rfl⟩, overlay_of_putsAll hv hg⟩

/-- An object gives settings just if it conforms to them: the defaults, overlaid with the values of
the known keys. Neither the order of the keys matters nor what other keys there are. -/
theorem ofJson_object (h : ObjectText ms text.toList) :
    (Conforms ms → ∃ s, ofJson text = .ok s ∧ Overlay ms s) ∧
      (¬ Conforms ms → ∃ fault, ofJson text = .error fault) ∧
      ∀ ms' text', ms.Perm ms' → ObjectText ms' text'.toList → Conforms ms →
        ofJson text' = ofJson text := by
  refine ⟨exists_overlay h, fun hnot ↦ ?_, fun ms' text' hperm h' hms ↦ ?_⟩
  · cases hread : ofJson text with
    | error fault => exact ⟨fault, rfl⟩
    | ok s =>
      obtain ⟨g, hg, -⟩ := (ofJson_eq_ok_iff h).mp hread
      exact absurd ((exists_putsAll_iff h.valueText).mp ⟨g, hg⟩) hnot
  · obtain ⟨s, hs, hoverlay⟩ := exists_overlay h hms
    obtain ⟨s', hs', hoverlay'⟩ := exists_overlay h' (hms.perm hperm)
    rw [hs, hs', hoverlay.unique hms (hoverlay'.perm hperm.symm)]

/-- A known key is escaped, and an unknown one stands there twice: with an object, the key in which
does not count, and with half of a surrogate pair. -/
theorem ofJson_escaped_key :
    let text := "\x7b\"\\u0073trict\":true,\"x\":\x7b\"strict\":false\x7d,\"x\":\"\\ud800\"," ++
      "\"format\":\x7b\"json\":null\x7d\x7d"
    ∃ ms, ObjectText ms text.toList ∧ Conforms ms ∧
      ofJson text = .ok { format := .json, strict := true } := by
  intro text
  have hunit : UnitText ['0', '0', '7', '3'] 0x73 :=
    .mk (i := 0) (j := 0) (k := 7) (l := 3) rfl rfl rfl rfl
  have hstrict : Spells ('\\' :: 'u' :: ['0', '0', '7', '3'] ++ ['t', 'r', 'i', 'c', 't'])
      ['s', 't', 'r', 'i', 'c', 't'] := .cons (.unit hunit rfl rfl) (spells_self (by decide))
  have hnested : Spells "strict".toList "strict".toList := spells_self (by decide)
  have hformat : Spells "format".toList "format".toList := spells_self (by decide)
  have hjson : Spells "json".toList "json".toList := spells_self (by decide)
  have hx : Spells "x".toList "x".toList := spells_self (by decide)
  have hhalf : StringText ('\\' :: 'u' :: ['d', '8', '0', '0'] ++ []) :=
    .cons (.unit (.mk rfl rfl rfl rfl)) .nil
  let nested := Member.tight _ "false".toList hnested.stringText
  let keyed := Member.tight _ ['n', 'u', 'l', 'l'] hjson.stringText
  let first := Member.tight _ "true".toList hstrict.stringText
  let second := Member.tight _ ('{' :: (nested.whole ++ ['}'])) hx.stringText
  let third := Member.tight _ (quoted ('\\' :: 'u' :: ['d', '8', '0', '0'] ++ [])) hx.stringText
  let fourth := Member.tight _ ('{' :: (keyed.whole ++ ['}'])) hformat.stringText
  let ms := [first, second, third, fourth]
  have hinside : ValueText second.value.text := .keyed (.boolean false)
  have hkeyed : FormatText .json fourth.value.text := .keyed hjson rfl
  have hvalues : ∀ m ∈ ms, ValueText m.value.text := by
    simp only [ms, List.forall_mem_cons]
    exact ⟨.boolean true, hinside, .string hhalf, .keyed .null, by simp⟩
  have hfirst : first.Names "strict" := hstrict
  have hsecond : second.Names "x" := hx
  have hthird : third.Names "x" := hx
  have hfourth : fourth.Names "format" := hformat
  have hputFirst : Puts record {} first { strict := some true } :=
    .known hfirst rfl rfl ((recognises_boolean.map _).accepts ⟨true, rfl, rfl⟩)
  have hputFourth : Puts record { strict := some true } fourth
      { format := some .json, strict := some true } :=
    .known hfourth rfl rfl ((recognises_format.map _).accepts ⟨.json, hkeyed, rfl⟩)
  have hputs : PutsAll record {} ms { format := some .json, strict := some true } :=
    .cons hputFirst (.cons (.unknown hsecond rfl hinside)
      (.cons (.unknown hthird rfl (.string hhalf)) (.cons hputFourth (.nil _))))
  have htext : text.toList = [] ++ '{' :: (joined [] (ms.map Member.whole) ++ '}' :: []) := by
    simp [text, ms, first, second, third, fourth, nested, keyed, Member.tight, Member.whole,
      Member.tail, Padded.whole, joined, quoted]
  have hobject : ObjectText ms text.toList := htext ▸ .mk gap_nil gap_nil gap_nil hvalues
  have hconforms : Conforms ms := (exists_putsAll_iff hvalues).mp ⟨_, hputs⟩
  obtain ⟨s, hs, hsame⟩ := (ofJson_object hobject).1 hconforms
  have hoverlay : Overlay ms { format := .json, strict := true } := overlay_of_putsAll hvalues hputs
  exact ⟨ms, hobject, hconforms, by rw [hs, hsame.unique hconforms hoverlay]⟩

end Lexemes.Settings
