import Lexemes.Proofs.Outcome

namespace Lexemes

structure Dumps (w : Surroundings) (args : List String) (path source : String) (s : Settings) :
    Prop where
  settings : ∃ o, CommandLine.read args = .ok (.dump path o) ∧ Settings.InForce w o s
  source : w.Holds path source

def strictVerdict (s : Settings) (source : String) : String :=
  if s.strict ∧ 0 < illegalCount source then verdict (illegalCount source) else ""

variable {v w : Surroundings} {args args' : List String} {path source : String} {s t : Settings}
  {ts : List Token}

theorem Dumps.run_eq (h : Dumps w args path source s) :
    run w args = .ofSource s path source := by
  obtain ⟨o, hargs, hforce⟩ := h.settings
  rw [run_of_read hargs, dumpFile_of_holds hforce h.source]

theorem dump_congr (hformat : s.format = t.format) (hskip : s.skipComments = t.skipComments)
    (hpositions : s.format = .text → s.positions = t.positions) : dump s ts = dump t ts := by
  have hshows : s.shows = t.shows := by
    funext token
    rw [Settings.shows, Settings.shows, hskip]
  rw [dump, dump, ← hformat, hshows]
  cases hs : s.format with
  | json => rfl
  | text =>
    have hline : s.line = t.line := by
      funext token
      rw [Settings.line, Settings.line, hpositions hs]
    rw [hline]

theorem errors_ofSource : (Outcome.ofSource s path source).errors =
    reportText path source ++ strictVerdict s source := by
  rw [ofSource_eq, strictVerdict]
  split_ifs
  · rfl
  · exact String.append_empty.symm

theorem status_congr (h : s.strict = t.strict) :
    (Outcome.ofSource s path source).status = (Outcome.ofSource t path source).status := by
  rw [ofSource_eq, ofSource_eq, h]
  split_ifs <;> rfl

/-- Of two runs on one source: one that is strict only adds a verdict, the ways to dump change the
dump only, and positions do not change even that where it is JSON. -/
theorem runs_differ_by_options (hs : Dumps v args path source s) (ht : Dumps w args' path source t) :
    (t = { s with strict := t.strict } → (run v args).output = (run w args').output ∧
      ∃ reports, (run v args).errors = reports ++ strictVerdict s source ∧
        (run w args').errors = reports ++ strictVerdict t source) ∧
      (t = { s with
          format := t.format, positions := t.positions, skipComments := t.skipComments } →
        (run v args).status = (run w args').status ∧
          (run v args).errors = (run w args').errors) ∧
      (s.format = .json → t = { s with positions := t.positions, strict := t.strict } →
        (run v args).output = (run w args').output) := by
  rw [hs.run_eq, ht.run_eq, output_ofSource, output_ofSource, errors_ofSource, errors_ofSource]
  refine ⟨fun h ↦ ⟨?_, _, rfl, rfl⟩, fun h ↦ ?_, fun hjson h ↦ ?_⟩
  · exact dump_congr (by rw [h]) (by rw [h]) fun _ ↦ by rw [h]
  · have hstrict : s.strict = t.strict := by rw [h]
    exact ⟨status_congr hstrict, by rw [strictVerdict, strictVerdict, hstrict]⟩
  · exact dump_congr (by rw [h]) (by rw [h]) fun htext ↦ by simp [hjson] at htext

/-- The format is set by the variable, by the file, which wants to be strict too, and by a switch,
which comes with positions. -/
theorem runs_differ_on_stray :
    let source := "a // b\n?"
    let files : String → Except FileFault ByteArray := fun path ↦
      if path = "main.st" then .ok source.toUTF8 else .error .absent
    let file := "\x7b\"format\": \"json\", \"strict\": true\x7d"
    let u : Surroundings := ⟨fun name ↦ if name = "STORR_FORMAT" then some " JSON " else none,
      fun _ ↦ false, files, Settings.complaint⟩
    let v : Surroundings := ⟨fun _ ↦ none, fun path ↦ path == "storr.json", fun path ↦
      if path = "storr.json" then .ok file.toUTF8 else files path, Settings.complaint⟩
    let w : Surroundings := ⟨fun _ ↦ none, fun _ ↦ false, files, Settings.complaint⟩
    let switches := ["main.st", "--positions", "--format=json"]
    (Dumps u ["main.st"] "main.st" source { format := .json } ∧
      Dumps v ["main.st"] "main.st" source { format := .json, strict := true } ∧
      Dumps w switches "main.st" source { format := .json, positions := true }) ∧
      (run u ["main.st"]).output = (run v ["main.st"]).output ∧
      (run u ["main.st"]).output = (run w switches).output ∧
      (run u ["main.st"]).errors = (run w switches).errors := by
  intro source files file u v w switches
  have hu : Dumps u ["main.st"] "main.st" source { format := .json } :=
    ⟨⟨{}, by decide +kernel, { format := .json }, by decide +kernel, rfl⟩, rfl⟩
  have hv : Dumps v ["main.st"] "main.st" source { format := .json, strict := true } :=
    ⟨⟨{}, by decide +kernel, { format := .json, strict := true }, by decide +kernel, rfl⟩, rfl⟩
  have hw : Dumps w switches "main.st" source { format := .json, positions := true } :=
    ⟨⟨{ format := some .json, positions := true }, by decide +kernel, {}, by decide +kernel, rfl⟩,
      rfl⟩
  obtain ⟨hstrict, -⟩ := runs_differ_by_options hu hv
  obtain ⟨-, hdump, hpositions⟩ := runs_differ_by_options hu hw
  exact ⟨⟨hu, hv, hw⟩, (hstrict rfl).1, hpositions rfl rfl, (hdump rfl).2⟩

end Lexemes
