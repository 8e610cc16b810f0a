import Lexemes.Run
import Lexemes.Proofs.Reports

namespace Lexemes

def Surroundings.Holds (w : Surroundings) (path text : String) : Prop :=
  w.contents path = .ok text.toUTF8

inductive Surroundings.Withholds (w : Surroundings) (path : String) : FileFault → Prop
  | unreadable {fault : FileFault} (h : w.contents path = .error fault) : Withholds w path fault
  | notText {bytes : ByteArray} (h : w.contents path = .ok bytes)
      (hbytes : ∀ text : String, text.toUTF8 ≠ bytes) : Withholds w path .notText

/-- There is a settings file, but it gives no settings, and why. -/
inductive Settings.Fails (w : Surroundings) : Failure → Prop
  | unreadable {fault : FileFault} (hthere : w.isThere (path w)) (h : w.Withholds (path w) fault) :
      Fails w (.unreadable (path w) fault)
  | invalid {text : String} (hthere : w.isThere (path w)) (h : w.Holds (path w) text)
      (htext : ∀ s, ofJson text ≠ .ok s) : Fails w (.badSettings (path w) (w.complaint text))

def Settings.InForce (w : Surroundings) (o : Options) (s : Settings) : Prop :=
  ∃ loaded, Settings.load w = .ok loaded ∧ s = loaded.apply o

def reportText (path source : String) : String :=
  String.join ((Report.ofTokens path (tokens source)).map Report.display)

def illegalCount (source : String) : Nat :=
  ((tokens source).filter Token.isIllegal).length

def verdict (n : Nat) : String :=
  "LexingError: " ++ toString n ++ " illegal token(s) found" ++ "\n"

variable {w : Surroundings} {path source text : String} {o : Options} {s : Settings}
  {f : Failure} {fault : FileFault} {bytes : ByteArray}

theorem fromUTF8?_eq_some_iff : String.fromUTF8? bytes = some text ↔ text.toUTF8 = bytes := by
  unfold String.fromUTF8?
  constructor
  · intro h
    split_ifs at h with hvalid
    exact congrArg String.toUTF8 (Option.some.inj h).symm
  · intro h
    subst h
    exact dif_pos text.isValidUTF8

theorem fromUTF8?_eq_none_iff :
    String.fromUTF8? bytes = none ↔ ∀ text : String, text.toUTF8 ≠ bytes := by
  rw [Option.eq_none_iff_forall_ne_some]
  exact forall_congr' fun text ↦ not_congr fromUTF8?_eq_some_iff

theorem readText_eq_ok_iff : w.readText path = .ok text ↔ w.Holds path text := by
  unfold Surroundings.readText Surroundings.Holds
  split
  · next hfile => simp [hfile]
  · next bytes hfile =>
    rw [hfile, Except.ok.injEq, eq_comm (a := bytes), ← fromUTF8?_eq_some_iff]
    cases String.fromUTF8? bytes <;> simp

theorem readText_eq_error_iff : w.readText path = .error fault ↔ w.Withholds path fault := by
  unfold Surroundings.readText
  constructor
  · intro h
    split at h
    · next hfile =>
      cases h
      exact .unreadable hfile
    · next bytes hfile =>
      split at h
      · cases h
      · next hnone =>
        cases h
        exact .notText hfile (fromUTF8?_eq_none_iff.mp hnone)
  · intro h
    cases h with
    | unreadable h => rw [h]
    | notText h hbytes => simp only [h, fromUTF8?_eq_none_iff.mpr hbytes]

theorem readFrom_eq_error_iff :
    Settings.readFrom w (Settings.path w) = .error f ↔ Settings.Fails w f := by
  unfold Settings.readFrom
  constructor
  · intro h
    split at h
    · next hthere =>
      split at h
      · next hfile =>
        cases h
        exact .unreadable hthere (readText_eq_error_iff.mp hfile)
      · next text hfile =>
        split at h
        · next hjson =>
          cases h
          exact .invalid hthere (readText_eq_ok_iff.mp hfile) (by simp [hjson])
        · cases h
    · cases h
  · intro h
    cases h with
    | unreadable hthere h => simp [readText_eq_error_iff.mpr h, hthere]
    | @invalid text hthere h htext =>
      simp only [hthere, if_true, readText_eq_ok_iff.mpr h]
      split
      · rfl
      · next s hjson => exact absurd hjson (htext s)

theorem load_eq_error_iff : Settings.load w = .error f ↔ Settings.Fails w f := by
  rw [← readFrom_eq_error_iff, Settings.load]
  cases Settings.readFrom w (Settings.path w) with
  | error e => rfl
  | ok s => cases w.lookup Settings.formatVariable <;> simp [bind, Except.bind, pure, Except.pure]

theorem Settings.fails_or_inForce (w : Surroundings) (o : Options) :
    (∃ f, Fails w f) ∨ ∃ s, InForce w o s := by
  cases h : load w with
  | error f => exact .inl ⟨f, load_eq_error_iff.mp h⟩
  | ok loaded => exact .inr ⟨_, loaded, h, rfl⟩

theorem Settings.InForce.not_fails (hs : InForce w o s) (f : Failure) : ¬ Fails w f := by
  obtain ⟨loaded, hload, -⟩ := hs
  rw [← load_eq_error_iff, hload]
  exact nofun

theorem Settings.InForce.unique {t : Settings} (hs : InForce w o s) (ht : InForce w o t) :
    s = t := by
  obtain ⟨loaded, hload, rfl⟩ := hs
  obtain ⟨other, hother, rfl⟩ := ht
  rw [Except.ok.inj (hload.symm.trans hother)]

theorem Surroundings.withholds_or_holds (w : Surroundings) (path : String) :
    (∃ fault, w.Withholds path fault) ∨ ∃ text, w.Holds path text := by
  cases h : w.readText path with
  | error fault => exact .inl ⟨fault, readText_eq_error_iff.mp h⟩
  | ok text => exact .inr ⟨text, readText_eq_ok_iff.mp h⟩

theorem Surroundings.Holds.not_withholds (h : w.Holds path text) (fault : FileFault) :
    ¬ w.Withholds path fault := by
  rw [← readText_eq_error_iff, readText_eq_ok_iff.mpr h]
  exact nofun

theorem Surroundings.Holds.unique (h : w.Holds path text) (h' : w.Holds path source) :
    text = source := by
  have hread := (readText_eq_ok_iff.mpr h).symm.trans (readText_eq_ok_iff.mpr h')
  exact Except.ok.inj hread

theorem dumpFile_of_fails (h : Settings.Fails w f) : dumpFile w path o = .ofFailure f := by
  rw [dumpFile, load_eq_error_iff.mpr h]

theorem dumpFile_of_withholds (hs : Settings.InForce w o s) (h : w.Withholds path fault) :
    dumpFile w path o = .ofFailure (.unreadable path fault) := by
  obtain ⟨loaded, hload, -⟩ := hs
  rw [dumpFile, hload, Surroundings.source, readText_eq_error_iff.mpr h]
  rfl

theorem dumpFile_of_holds (hs : Settings.InForce w o s) (h : w.Holds path source) :
    dumpFile w path o = .ofSource s path source := by
  obtain ⟨loaded, hload, rfl⟩ := hs
  rw [dumpFile, hload, Surroundings.source, readText_eq_ok_iff.mpr h]
  rfl

theorem run_of_read {args : List String} (h : CommandLine.read args = .ok (.dump path o)) :
    run w args = dumpFile w path o := by
  rw [run, h]
  rfl

theorem length_ofTokens (path source : String) :
    (Report.ofTokens path (tokens source)).length = illegalCount source := by
  rw [Report.ofTokens_eq, List.length_map, illegalCount]

theorem illegalCount_pos_iff : 0 < illegalCount source ↔ ∃ t ∈ tokens source, t.kind = .illegal := by
  rw [illegalCount, List.length_filter_pos_iff]
  simp [Token.isIllegal]

theorem ofSource_eq : Outcome.ofSource s path source =
    if s.strict ∧ 0 < illegalCount source then
      ⟨1, dump s (tokens source), reportText path source ++ verdict (illegalCount source)⟩
    else ⟨0, dump s (tokens source), reportText path source⟩ := by
  have hempty : (!(Report.ofTokens path (tokens source)).isEmpty) = true ↔
      0 < illegalCount source := by
    rw [← length_ofTokens path, List.length_pos_iff]
    simp
  have hverdict : (Failure.illegalTokens (illegalCount source)).message ++ "\n" =
      verdict (illegalCount source) := rfl
  simp only [Outcome.ofSource, Bool.and_eq_true, hempty, length_ofTokens, String.append_assoc,
    hverdict]
  rfl

theorem output_ofSource : (Outcome.ofSource s path source).output = dump s (tokens source) := by
  rw [ofSource_eq]
  split_ifs <;> rfl

theorem status_ofSource_eq_one_iff : (Outcome.ofSource s path source).status = 1 ↔
    s.strict ∧ 0 < illegalCount source := by
  rw [ofSource_eq]
  split_ifs with hfail <;> simp [hfail]

/-- What is due from a run that dumps the file at `path`. -/
structure Outcome.Due (w : Surroundings) (path : String) (o : Options) (out : Outcome) : Prop where
  status : out.status = 0 ∨ out.status = 1
  failed : out.status = 1 ↔ (∃ f, Settings.Fails w f) ∨ (∃ fault, w.Withholds path fault) ∨
    ∃ s source, Settings.InForce w o s ∧ w.Holds path source ∧ s.strict ∧
      ∃ t ∈ tokens source, t.kind = .illegal
  badSettings : ∀ f, Settings.Fails w f → out.output = "" ∧ out.errors = f.message ++ "\n"
  badSource : (∀ f, ¬ Settings.Fails w f) → ∀ fault, w.Withholds path fault →
    out.output = "" ∧ out.errors = (Failure.unreadable path fault).message ++ "\n"
  dumped : (∀ f, ¬ Settings.Fails w f) → (∀ fault, ¬ w.Withholds path fault) →
    ∃ s source, Settings.InForce w o s ∧ w.Holds path source ∧
      out.output = dump s (tokens source) ∧
      (out.status = 0 → out.errors = reportText path source) ∧
      (out.status = 1 → 0 < illegalCount source ∧
        out.errors = reportText path source ++ verdict (illegalCount source))

theorem due_of_fails (h : Settings.Fails w f) : (Outcome.ofFailure f).Due w path o where
  status := .inr rfl
  failed := by simpa [Outcome.ofFailure] using .inl ⟨f, h⟩
  badSettings g hg := by
    have hfg := (load_eq_error_iff.mpr h).symm.trans (load_eq_error_iff.mpr hg)
    rw [Except.error.inj hfg]
    exact ⟨rfl, rfl⟩
  badSource hnone := absurd h (hnone f)
  dumped hnone := absurd h (hnone f)

theorem due_of_withholds (hs : ∀ f, ¬ Settings.Fails w f) (h : w.Withholds path fault) :
    (Outcome.ofFailure (.unreadable path fault)).Due w path o where
  status := .inr rfl
  failed := by simpa [Outcome.ofFailure] using .inr (.inl ⟨fault, h⟩)
  badSettings f hf := absurd hf (hs f)
  badSource _ fault' h' := by
    have hfault := (readText_eq_error_iff.mpr h).symm.trans (readText_eq_error_iff.mpr h')
    rw [Except.error.inj hfault]
    exact ⟨rfl, rfl⟩
  dumped _ hnone := absurd h (hnone fault)

theorem due_of_holds (hs : Settings.InForce w o s) (h : w.Holds path source) :
    (Outcome.ofSource s path source).Due w path o where
  status := by
    rw [ofSource_eq]
    split_ifs
    · exact .inr rfl
    · exact .inl rfl
  failed := by
    rw [status_ofSource_eq_one_iff, illegalCount_pos_iff]
    constructor
    · rintro ⟨hstrict, hillegal⟩
      exact .inr (.inr ⟨s, source, hs, h, hstrict, hillegal⟩)
    · rintro (⟨f, hf⟩ | ⟨fault, hfault⟩ | ⟨t, other, ht, hother, hfail⟩)
      · exact absurd hf (hs.not_fails f)
      · exact absurd hfault (h.not_withholds fault)
      · obtain rfl := hs.unique ht
        obtain rfl := h.unique hother
        exact hfail
  badSettings f hf := absurd hf (hs.not_fails f)
  badSource _ fault hfault := absurd hfault (h.not_withholds fault)
  dumped _ _ := by
    refine ⟨s, source, hs, h, output_ofSource, ?_⟩
    rw [ofSource_eq]
    split_ifs with hfail
    · exact ⟨by simp, fun _ ↦ ⟨hfail.2, rfl⟩⟩
    · exact ⟨fun _ ↦ rfl, by simp⟩

/-- Every run that dumps a file ends as is due. -/
theorem run_outcome (w : Surroundings) (args : List String) {path : String} {o : Options}
    (h : CommandLine.read args = .ok (.dump path o)) : (run w args).Due w path o := by
  rw [run_of_read h]
  rcases Settings.fails_or_inForce w o with ⟨f, hf⟩ | ⟨s, hs⟩
  · rw [dumpFile_of_fails hf]
    exact due_of_fails hf
  rcases w.withholds_or_holds path with ⟨fault, hfault⟩ | ⟨source, hsource⟩
  · rw [dumpFile_of_withholds hs hfault]
    exact due_of_withholds hs.not_fails hfault
  · rw [dumpFile_of_holds hs hsource]
    exact due_of_holds hs hsource

/-- Neither the settings nor the source can be had here, and the fault of the settings is told. -/
theorem run_broken_settings :
    let w : Surroundings := ⟨fun _ ↦ none, fun path ↦ path == "storr.json", fun path ↦
      if path = "storr.json" then .ok "format: json".toUTF8 else .error .absent,
      Settings.complaint⟩
    let args := ["--strict", "--format=json", "main.st"]
    CommandLine.read args = .ok (.dump "main.st" { format := some .json, strict := true }) ∧
      (run w args).status = 1 ∧ (run w args).output = "" ∧
      (run w args).errors =
        "ConfigError: invalid config storr.json: expected ident at line 1 column 2\n" := by
  intro w args
  have hargs : CommandLine.read args =
      .ok (.dump "main.st" { format := some .json, strict := true }) := by decide +kernel
  have hholds : w.Holds (Settings.path w) "format: json" := rfl
  have hcomplaint : Settings.complaint "format: json" = "expected ident at line 1 column 2" := by
    decide +kernel
  have hrefused (s : Settings) : Settings.ofJson "format: json" ≠ .ok s := by
    intro hs
    simp [Settings.complaint, hs] at hcomplaint
  have hfails : Settings.Fails w (.badSettings "storr.json" "expected ident at line 1 column 2") :=
    hcomplaint ▸ .invalid rfl hholds hrefused
  have hdue := run_outcome w args hargs
  exact ⟨hargs, hdue.failed.mpr (.inl ⟨_, hfails⟩), hdue.badSettings _ hfails⟩

end Lexemes
