import Lexemes.Proofs.Outcome
import Lexemes.Proofs.PositionDump

namespace Lexemes

open Text

variable {w : Surroundings} {o : Options} {s file : Settings} {f g : DumpFormat}
  {value : String} {values : List String} {cs front word back : List Char}

/-- The value is the name of the format, in letters of either case and between blanks. -/
def DumpFormat.NamedBy (f : DumpFormat) (value : String) : Prop :=
  ∃ front word back, value.toList = front ++ (word ++ back) ∧ (∀ c ∈ front, isBlank c) ∧
    (∀ c ∈ back, isBlank c) ∧ word.map Char.toLower = f.name.toList

inductive Settings.FileGives (w : Surroundings) : Settings → Prop
  | absent (hgone : w.isThere (path w) = false) : FileGives w {}
  | given {text : String} {s : Settings} (hthere : w.isThere (path w)) (h : w.Holds (path w) text)
      (htext : ofJson text = .ok s) : FileGives w s

structure Settings.MadeUp (o : Options) (given : Option String) (file s : Settings) : Prop where
  byOption : ∀ f, o.format = some f → s.format = f
  byVariable : o.format = none → ∀ value ∈ given, ∀ f : DumpFormat, f.NamedBy value → s.format = f
  byFile : o.format = none → (∀ value ∈ given, ∀ f : DumpFormat, ¬ f.NamedBy value) →
    s.format = file.format
  positions : s.positions ↔ file.positions ∨ o.positions
  skipComments : s.skipComments ↔ file.skipComments ∨ o.skipComments
  strict : s.strict ↔ file.strict ∨ o.strict

/-- What the values, one after the other, make of `s`: the last that names a format counts. -/
structure Settings.Overridden (s : Settings) (values : List String) (t : Settings) : Prop where
  byLast : ∀ before value after, values = before ++ value :: after →
    (∀ v ∈ after, ∀ g : DumpFormat, ¬ g.NamedBy v) →
    ∀ f : DumpFormat, f.NamedBy value → t.format = f
  byNone : (∀ v ∈ values, ∀ g : DumpFormat, ¬ g.NamedBy v) → t.format = s.format
  others : t = { s with format := t.format }

theorem toLower_of_isBlank {c : Char} (h : isBlank c) : c.toLower = c := by
  have hbounds := isBlank_bounds h
  refine dif_neg fun hupper ↦ ?_
  have hlow : 65 ≤ c.toNat := UInt32.le_iff_toNat_le.mp hupper.1
  have hhigh : c.toNat ≤ 90 := UInt32.le_iff_toNat_le.mp hupper.2
  omega

theorem not_isBlank_of_toLower {c : Char} (h : c.toLower ∈ f.name.toList) : isBlank c = false := by
  refine Bool.eq_false_iff.mpr fun hb ↦ ?_
  rw [toLower_of_isBlank hb] at h
  have hname : f.name.toList.all fun x ↦ !isBlank x := by
    cases f <;> decide
  have hc := List.all_eq_true.mp hname c h
  simp [hb] at hc

theorem exists_trim (cs : List Char) : ∃ front back, cs = front ++ (trim cs ++ back) ∧
    (∀ c ∈ front, isBlank c) ∧ ∀ c ∈ back, isBlank c := by
  let rest := trimStart cs
  have hrest : rest = trim cs ++ (rest.reverse.takeWhile isBlank).reverse := by
    have hreverse : rest.reverse = _ := (List.takeWhile_append_dropWhile (p := isBlank)).symm
    rw [← List.reverse_inj, List.reverse_append, List.reverse_reverse, hreverse]
    simp [trim, trimEnd, rest]
  refine ⟨cs.takeWhile isBlank, (rest.reverse.takeWhile isBlank).reverse, ?_, ?_, ?_⟩
  · rw [← hrest]
    exact List.takeWhile_append_dropWhile.symm
  · exact fun c hc ↦ List.mem_takeWhile_imp hc
  · exact fun c hc ↦ List.mem_takeWhile_imp (List.mem_reverse.mp hc)

theorem trim_append (hfront : ∀ c ∈ front, isBlank c) (hback : ∀ c ∈ back, isBlank c)
    (hword : word ≠ []) (hhead : ∀ c ∈ word.head?, isBlank c = false)
    (hlast : ∀ c ∈ word.getLast?, isBlank c = false) : trim (front ++ (word ++ back)) = word := by
  have hstart : trimStart (front ++ (word ++ back)) = word ++ back := by
    refine dropWhile_run hfront fun c hc ↦ hhead c ?_
    rwa [List.head?_append_of_ne_nil _ hword] at hc
  rw [trim, hstart, trimEnd_append, if_pos (trimEnd_eq_nil hback), trimEnd_eq_self hlast]

theorem ofName?_eq_some_iff {name : String} : DumpFormat.ofName? name = some f ↔ f.name = name := by
  constructor
  · intro h
    simpa using List.find?_some h
  · rintro rfl
    cases f <;> decide

theorem recognise?_eq_some_iff : DumpFormat.recognise? value = some f ↔ f.NamedBy value := by
  rw [DumpFormat.recognise?, ofName?_eq_some_iff, ← String.toList_inj, String.toList_ofList]
  constructor
  · intro h
    obtain ⟨front, back, hvalue, hfront, hback⟩ := exists_trim value.toList
    exact ⟨front, _, back, hvalue, hfront, hback, h.symm⟩
  · rintro ⟨front, word, back, hvalue, hfront, hback, hword⟩
    have hne : word ≠ [] := by
      rintro rfl
      cases f <;> simp [DumpFormat.name] at hword
    have hblank : ∀ c ∈ word, isBlank c = false := fun c hc ↦
      not_isBlank_of_toLower (hword ▸ List.mem_map_of_mem hc)
    rw [hvalue, trim_append hfront hback hne (fun c hc ↦ hblank c (List.mem_of_mem_head? hc))
      (fun c hc ↦ hblank c (List.mem_of_getLast? hc)), hword]

theorem recognise?_eq_none_iff :
    DumpFormat.recognise? value = none ↔ ∀ f : DumpFormat, ¬ f.NamedBy value := by
  rw [Option.eq_none_iff_forall_ne_some]
  exact forall_congr' fun f ↦ not_congr recognise?_eq_some_iff

theorem overrideFormat_of_namedBy (h : f.NamedBy value) :
    s.overrideFormat value = { s with format := f } := by
  rw [Settings.overrideFormat, recognise?_eq_some_iff.mpr h]

theorem overrideFormat_of_unnamed (h : ∀ f : DumpFormat, ¬ f.NamedBy value) :
    s.overrideFormat value = s := by
  rw [Settings.overrideFormat, recognise?_eq_none_iff.mpr h]

theorem overrideFormat_eq (value : String) :
    s.overrideFormat value = { s with format := (s.overrideFormat value).format } := by
  unfold Settings.overrideFormat
  split <;> rfl

section Values

theorem foldl_overrideFormat_of_unnamed (h : ∀ v ∈ values, ∀ f : DumpFormat, ¬ f.NamedBy v) :
    values.foldl Settings.overrideFormat s = s := by
  induction values with
  | nil => rfl
  | cons value values ih =>
    obtain ⟨hvalue, hvalues⟩ := List.forall_mem_cons.mp h
    rw [List.foldl_cons, overrideFormat_of_unnamed hvalue, ih hvalues]

theorem foldl_overrideFormat_eq (values : List String) :
    values.foldl Settings.overrideFormat s =
      { s with format := (values.foldl Settings.overrideFormat s).format } := by
  induction values generalizing s with
  | nil => rfl
  | cons value values ih => rw [List.foldl_cons, ih, overrideFormat_eq]

theorem overridden_foldl (s : Settings) (values : List String) :
    s.Overridden values (values.foldl Settings.overrideFormat s) where
  byLast before value after hvalues hafter f hvalue := by
    subst hvalues
    rw [List.foldl_append, List.foldl_cons, foldl_overrideFormat_of_unnamed hafter,
      overrideFormat_of_namedBy hvalue]
  byNone h := by rw [foldl_overrideFormat_of_unnamed h]
  others := foldl_overrideFormat_eq values

end Values

theorem readFrom_eq_ok_iff :
    Settings.readFrom w (Settings.path w) = .ok s ↔ Settings.FileGives w s := by
  unfold Settings.readFrom
  constructor
  · intro h
    split at h
    · next hthere =>
      split at h
      · cases h
      · next text hfile =>
        split at h
        · cases h
        · next hjson =>
          cases h
          exact .given hthere (readText_eq_ok_iff.mp hfile) hjson
    · next hgone =>
      cases h
      exact .absent (by simpa using hgone)
  · intro h
    cases h with
    | absent hgone => simp [hgone]
    | given hthere h htext => simp [readText_eq_ok_iff.mpr h, hthere, htext]

theorem load_of_fileGives (h : Settings.FileGives w file) : Settings.load w =
    .ok ((w.lookup Settings.formatVariable).toList.foldl Settings.overrideFormat file) := by
  rw [Settings.load, readFrom_eq_ok_iff.mpr h]
  cases w.lookup Settings.formatVariable <;> rfl

theorem madeUp_apply (o : Options) (given : Option String) (file : Settings) :
    Settings.MadeUp o given file ((given.toList.foldl Settings.overrideFormat file).apply o) := by
  have hloaded := foldl_overrideFormat_eq (s := file) given.toList
  constructor
  case byOption =>
    intro f hf
    simp [Settings.apply, hf]
  case byVariable =>
    rintro hnone value ⟨⟩ f hvalue
    simp [Settings.apply, hnone, overrideFormat_of_namedBy hvalue]
  case byFile =>
    intro hnone hgiven
    rw [foldl_overrideFormat_of_unnamed (by simpa using hgiven)]
    simp [Settings.apply, hnone]
  case positions | skipComments | strict =>
    rw [hloaded]
    simp [Settings.apply]

/-- A run that dumps a file has its format from the command line, or else from the variable, or else
from the settings file; what the file or the command line turns on is on. However many values are to
override a format, the last that names one does. -/
theorem settings_made_up :
    (∀ (w : Surroundings) (args : List String) (path : String) (o : Options) (file : Settings),
      CommandLine.read args = .ok (.dump path o) → Settings.FileGives w file →
      ∃ s, Settings.InForce w o s ∧
        Settings.MadeUp o (w.lookup Settings.formatVariable) file s ∧
        ∀ source, w.Holds path source → run w args = .ofSource s path source) ∧
      ∀ (s : Settings) (values : List String),
        s.Overridden values (values.foldl Settings.overrideFormat s) := by
  refine ⟨fun w args path o file hargs hfile ↦ ?_, overridden_foldl⟩
  have hforce : Settings.InForce w o _ := ⟨_, load_of_fileGives hfile, rfl⟩
  refine ⟨_, hforce, madeUp_apply o _ file, fun source hsource ↦ ?_⟩
  rw [run_of_read hargs, dumpFile_of_holds hforce hsource]

/-- The variable sets the format back to text, which the file has as JSON; the file wants to be
strict and a switch adds positions. -/
theorem settings_from_all_three :
    let file := "\x7b\"strict\": true, \"format\": \"json\"\x7d"
    let w : Surroundings := ⟨fun name ↦ if name = "STORR_FORMAT" then some "\u2003TeXt\n" else none,
      fun path ↦ path == "storr.json",
      fun path ↦ if path = "storr.json" then .ok file.toUTF8 else .error .absent,
      Settings.complaint⟩
    let args := ["--positions", "main.st"]
    CommandLine.read args = .ok (.dump "main.st" { positions := true }) ∧
      Settings.FileGives w { format := .json, strict := true } ∧
      ∃ s, Settings.InForce w { positions := true } s ∧
        s.format = .text ∧ s.positions ∧ ¬ s.skipComments ∧ s.strict := by
  intro file w args
  have hargs : CommandLine.read args = .ok (.dump "main.st" { positions := true }) := by
    decide +kernel
  have hgives : Settings.FileGives w { format := .json, strict := true } :=
    .given rfl (rfl : w.Holds (Settings.path w) file) (by decide +kernel)
  obtain ⟨s, hforce, hmade, -⟩ := settings_made_up.1 w args "main.st" _ _ hargs hgives
  have htext : DumpFormat.text.NamedBy "\u2003TeXt\n" :=
    ⟨['\u2003'], ['T', 'e', 'X', 't'], ['\n'], by decide, List.forall_mem_singleton.mpr (by decide),
      List.forall_mem_singleton.mpr (by decide), by decide⟩
  exact ⟨hargs, hgives, s, hforce, hmade.byVariable rfl _ rfl _ htext,
    hmade.positions.mpr (.inr rfl), by simpa using hmade.skipComments, hmade.strict.mpr (.inl rfl)⟩

end Lexemes
