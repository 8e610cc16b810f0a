import Lexemes.Proofs.Precedence

namespace Lexemes.CommandLine

inductive Switch
  | positions | skipComments | strict
  deriving DecidableEq

namespace Switch

def name : Switch → String
  | positions => "positions"
  | skipComments => "skip-comments"
  | strict => "strict"

def isOn : Switch → Options → Bool
  | positions, o => o.positions
  | skipComments, o => o.skipComments
  | strict, o => o.strict

def turnOn : Switch → Options → Options
  | positions, o => { o with positions := true }
  | skipComments, o => { o with skipComments := true }
  | strict, o => { o with strict := true }

theorem isOn_turnOn (s t : Switch) (o : Options) : t.isOn (s.turnOn o) ↔ s = t ∨ t.isOn o := by
  cases s <;> cases t <;> simp [isOn, turnOn]

theorem format_turnOn (s : Switch) (o : Options) : (s.turnOn o).format = o.format := by
  cases s <;> rfl

theorem isOn_format (s : Switch) (o : Options) (f : Option DumpFormat) :
    s.isOn { o with format := f } = s.isOn o := by
  cases s <;> rfl

end Switch

inductive Part
  | file (path : String)
  | format (f : DumpFormat)
  | switch (s : Switch)
  deriving DecidableEq

inductive Slot
  | file | format
  | switch (s : Switch)
  deriving DecidableEq

namespace Part

def slot : Part → Slot
  | file _ => .file
  | format _ => .format
  | switch s => .switch s

/-- The arguments that stand for a part. A format may have one to itself, which is the next one
whatever it looks like. -/
inductive Spelled : Part → List String → Prop
  | file {path : String} (hne : path ≠ "") (hdash : path = "-" ∨ path.toList.head? ≠ some '-') :
      Spelled (.file path) [path]
  | apart (f : DumpFormat) : Spelled (.format f) ["--format", f.name]
  | joined (f : DumpFormat) : Spelled (.format f) ["--format=" ++ f.name]
  | switch (s : Switch) : Spelled (.switch s) ["--" ++ s.name]

end Part

inductive Spells : List Part → List String → Prop
  | nil : Spells [] []
  | cons {p : Part} {parts : List Part} {ws args : List String} (hp : p.Spelled ws)
      (h : Spells parts args) : Spells (p :: parts) (ws ++ args)

/-- There is one file, and at most one format and one switch of each name. -/
structure Complete (parts : List Part) : Prop where
  once : (parts.map Part.slot).Nodup
  file : .file ∈ parts.map Part.slot

structure Asks (parts : List Part) (path : String) (o : Options) : Prop where
  file : ∀ p, .file p ∈ parts ↔ path = p
  format : ∀ f, .format f ∈ parts ↔ o.format = some f
  switch : ∀ s, .switch s ∈ parts ↔ s.isOn o

/-- No dump is asked for, as far as the beginning of the argument tells, but help or the version; or
the argument is the one with which the options end. -/
def SetsAside (arg : String) : Prop :=
  arg = "--" ∨ ∃ front ∈ ["-h", "-V", "--help", "--version"], front.toList <+: arg.toList

instance (arg : String) : Decidable (SetsAside arg) :=
  inferInstanceAs (Decidable (_ ∨ _))

def Argument.Fits (s : String) : Argument → Prop
  | file path => s = path ∧ (path = "-" ∨ path.toList.head? ≠ some '-')
  | short letter => ['-', letter] <+: s.toList
  | long name none => s = "--" ++ name
  | long name (some value) => s = "--" ++ name ++ "=" ++ value
  | onlyFiles => s = "--"

theorem Argument.fits {s : String} {a : Argument} (h : ofString s = a) : a.Fits s := by
  subst h
  unfold ofString
  split
  · next h => exact String.toList_inj.mp h
  · next cs _ h =>
    obtain ⟨name, rest, rfl, hname, hrest⟩ := exists_run (· != '=') cs
    dsimp only
    rw [takeWhile_run hname hrest, dropWhile_run hname hrest]
    cases rest with
    | nil => exact String.toList_inj.mp (by simp [h])
    | cons c value =>
      obtain rfl : c = '=' := by simpa using hrest c rfl
      exact String.toList_inj.mp (by simp [h])
  · next letter rest _ _ h => exact ⟨rest, h.symm⟩
  · next hshort =>
    refine ⟨rfl, ?_⟩
    by_contra! hdash
    obtain ⟨rest, hs⟩ := List.head?_eq_some_iff.mp hdash.2
    cases rest with
    | nil => exact hdash.1 (String.toList_inj.mp hs)
    | cons letter rest => exact hshort letter rest hs

theorem ofString_file {path : String} (h : path = "-" ∨ path.toList.head? ≠ some '-') :
    Argument.ofString path = .file path := by
  rcases h with rfl | h
  · decide +kernel
  · unfold Argument.ofString
    split
    case h_4 => rfl
    all_goals simp_all

theorem bind_eq_ok_iff {ε α β : Type} {x : Except ε α} {f : α → Except ε β} {b : β} :
    x >>= f = .ok b ↔ ∃ a, x = .ok a ∧ f a = .ok b := by
  cases x with
  | error e => exact ⟨nofun, fun ⟨_, h, _⟩ ↦ nomatch h⟩
  | ok a => exact ⟨fun h ↦ ⟨a, rfl, h⟩, fun ⟨_, h, hf⟩ ↦ Except.ok.inj h ▸ hf⟩

namespace Draft

def add (d : Draft) : Part → Except UsageFault Draft
  | .file path => d.addFile path
  | .format f => d.addFormat f.name
  | .switch s => d.switchOn s.name

def put (d : Draft) : Part → Draft
  | .file path => { d with file := some path }
  | .format f => { d with options.format := some f }
  | .switch s => { d with options := s.turnOn d.options }

def Has (d : Draft) : Part → Prop
  | .file path => d.file = some path
  | .format f => d.options.format = some f
  | .switch s => s.isOn d.options

def Taken (d : Draft) : Slot → Prop
  | .file => d.file.isSome
  | .format => d.options.format.isSome
  | .switch s => s.isOn d.options

/-- None of the parts takes a slot that is taken, by what has been read or by another of them. -/
def Free (d : Draft) (parts : List Part) : Prop :=
  (∀ p ∈ parts, ¬ d.Taken p.slot) ∧ (parts.map Part.slot).Nodup

variable {d e : Draft} {p q : Part} {slot : Slot} {path value name : String} {ws args : List String}
  {parts : List Part}

theorem Has.taken (h : d.Has p) : d.Taken p.slot := by
  cases p with
  | file | format => exact Option.isSome_of_mem h
  | switch => exact h

theorem taken_put : (d.put p).Taken slot ↔ p.slot = slot ∨ d.Taken slot := by
  cases p <;> cases slot <;>
    simp [put, Taken, Part.slot, Switch.isOn_turnOn, Switch.format_turnOn, Switch.isOn_format]

theorem has_put (h : ¬ d.Taken p.slot) : (d.put p).Has q ↔ p = q ∨ d.Has q := by
  cases p <;> cases q <;>
    simp_all [put, Has, Taken, Part.slot, Switch.isOn_turnOn, Switch.format_turnOn,
      Switch.isOn_format]

theorem ne_of_addFile (h : d.addFile path = .ok e) : path ≠ "" := by
  unfold addFile at h
  split_ifs at h with _ hpath
  exact hpath

theorem exists_of_addFormat (h : d.addFormat value = .ok e) :
    ∃ f : DumpFormat, value = f.name := by
  unfold addFormat at h
  split at h
  · cases h
  · next f hf => exact ⟨f, (ofName?_eq_some_iff.mp hf).symm⟩

theorem exists_of_switchOn (h : d.switchOn name = .ok e) : ∃ s : Switch, name = s.name := by
  unfold switchOn at h
  split at h
  · exact ⟨.positions, rfl⟩
  · exact ⟨.skipComments, rfl⟩
  · exact ⟨.strict, rfl⟩
  · cases h

theorem switchOn_name (s : Switch) : d.switchOn s.name =
    if s.isOn d.options then .error (.repeated s.name)
    else .ok { d with options := s.turnOn d.options } := by
  cases s <;> rfl

theorem add_eq_ok_iff (hp : p.Spelled ws) : d.add p = .ok e ↔ ¬ d.Taken p.slot ∧ d.put p = e := by
  cases hp with
  | file hne =>
    change d.addFile _ = .ok e ↔ ¬ d.file.isSome ∧ _
    unfold addFile
    split_ifs with h <;> simp [h, put]
  | apart f | joined f =>
    change d.addFormat f.name = .ok e ↔ ¬ d.options.format.isSome ∧ _
    unfold addFormat
    rw [ofName?_eq_some_iff.mpr rfl]
    dsimp only
    split_ifs with h <;> simp [h, put]
  | switch s =>
    change d.switchOn s.name = .ok e ↔ ¬ s.isOn d.options ∧ _
    rw [switchOn_name]
    split_ifs with h <;> simp [h, put]

theorem free_cons : d.Free (p :: parts) ↔ ¬ d.Taken p.slot ∧ (d.put p).Free parts := by
  simp only [Free, taken_put, List.forall_mem_cons, List.map_cons, List.nodup_cons, List.mem_map,
    not_exists, not_and, not_or, forall_and]
  constructor
  · intro h
    obtain ⟨⟨hp, hparts⟩, hnew, honce⟩ := h
    exact ⟨hp, ⟨fun q hq hsame ↦ hnew q hq hsame.symm, hparts⟩, honce⟩
  · intro h
    obtain ⟨hp, ⟨hnew, hparts⟩, honce⟩ := h
    exact ⟨⟨hp, hparts⟩, fun q hq hsame ↦ hnew q hq hsame.symm, honce⟩

theorem foldlM_add_eq_ok_iff (h : Spells parts args) :
    parts.foldlM add d = .ok e ↔ d.Free parts ∧ parts.foldl put d = e := by
  induction h generalizing d with
  | nil => simp [Free, pure, Except.pure]
  | cons hp h ih =>
    simp only [List.foldlM_cons, bind_eq_ok_iff, add_eq_ok_iff hp, ih, free_cons, List.foldl_cons]
    constructor
    · intro h
      obtain ⟨m, ⟨htaken, rfl⟩, hfree, hput⟩ := h
      exact ⟨⟨htaken, hfree⟩, hput⟩
    · intro h
      obtain ⟨⟨htaken, hfree⟩, hput⟩ := h
      exact ⟨_, ⟨htaken, rfl⟩, hfree, hput⟩

theorem has_foldl_put (h : d.Free parts) :
    (parts.foldl put d).Has q ↔ q ∈ parts ∨ d.Has q := by
  induction parts generalizing d with
  | nil => simp
  | cons p parts ih =>
    obtain ⟨hp, hparts⟩ := free_cons.mp h
    rw [List.foldl_cons, ih hparts, has_put hp, List.mem_cons, or_left_comm, or_assoc,
      eq_comm (a := p)]

end Draft

variable {d : Draft} {p : Part} {parts other : List Part} {arg path : String}
  {ws args args' : List String} {o : Options} {c : Command}

theorem Part.Spelled.ne_nil (hp : p.Spelled ws) : ws ≠ [] := by
  cases hp <;> simp

theorem readFrom_append (hp : p.Spelled ws) :
    readFrom d (ws ++ args) = d.add p >>= fun e ↦ readFrom e args := by
  cases hp with
  | @file path _ hdash =>
    have hform : Argument.ofString path = .file path := ofString_file hdash
    rw [List.singleton_append, readFrom.eq_def]
    dsimp only
    rw [hform]
    rfl
  | apart f =>
    have hform : Argument.ofString "--format" = .long "format" none := by decide +kernel
    change readFrom d ("--format" :: f.name :: args) = _
    rw [readFrom.eq_def]
    dsimp only
    rw [hform]
    rfl
  | joined f =>
    have hform : Argument.ofString ("--format=" ++ f.name) = .long "format" (some f.name) := by
      cases f <;> decide +kernel
    rw [List.singleton_append, readFrom.eq_def]
    dsimp only
    rw [hform]
    rfl
  | switch s =>
    have hform : Argument.ofString ("--" ++ s.name) = .long s.name none := by
      cases s <;> decide +kernel
    rw [List.singleton_append, readFrom.eq_def]
    dsimp only
    rw [hform]
    cases s <;> rfl

theorem readFrom_of_spells (h : Spells parts args) :
    readFrom d args = parts.foldlM Draft.add d >>= Draft.finish := by
  induction h generalizing d with
  | nil => rfl
  | cons hp h ih =>
    rw [readFrom_append hp, List.foldlM_cons, bind_assoc]
    simp only [ih]

theorem exists_part_of_readFrom (harg : ¬ SetsAside arg) (h : readFrom d (arg :: args) = .ok c) :
    ∃ (p : Part) (ws rest : List String), arg :: args = ws ++ rest ∧ p.Spelled ws := by
  rw [readFrom.eq_def] at h
  dsimp only at h
  split at h
  · next path hform =>
    obtain ⟨rfl, hdash⟩ := Argument.fits hform
    obtain ⟨e, he, -⟩ := bind_eq_ok_iff.mp h
    exact ⟨_, _, args, rfl, .file (Draft.ne_of_addFile he) hdash⟩
  · next hform => exact absurd (.inl (Argument.fits hform)) harg
  · next hform => exact absurd (.inr ⟨"-h", by simp, Argument.fits hform⟩) harg
  · next hform => exact absurd (.inr ⟨"-V", by simp, Argument.fits hform⟩) harg
  · cases h
  · next hform =>
    obtain rfl : arg = "--" ++ "help" := Argument.fits hform
    exact absurd (by decide +kernel) harg
  · next hform =>
    obtain rfl : arg = "--" ++ "version" := Argument.fits hform
    exact absurd (by decide +kernel) harg
  · next value hform =>
    obtain ⟨e, he, -⟩ := bind_eq_ok_iff.mp h
    obtain ⟨f, rfl⟩ := Draft.exists_of_addFormat he
    obtain rfl : arg = "--format=" ++ f.name := Argument.fits hform
    exact ⟨_, _, args, rfl, .joined f⟩
  · next hform =>
    obtain rfl : arg = "--format" := Argument.fits hform
    cases args with
    | nil => cases h
    | cons value args =>
      obtain ⟨e, he, -⟩ := bind_eq_ok_iff.mp h
      obtain ⟨f, rfl⟩ := Draft.exists_of_addFormat he
      exact ⟨_, _, args, rfl, .apart f⟩
  · next name _ _ _ hform =>
    obtain ⟨e, he, -⟩ := bind_eq_ok_iff.mp h
    obtain ⟨s, rfl⟩ := Draft.exists_of_switchOn he
    obtain rfl : arg = "--" ++ s.name := Argument.fits hform
    exact ⟨_, _, args, rfl, .switch s⟩
  · cases h

theorem exists_spells_of_readFrom (hargs : ∀ arg ∈ args, ¬ SetsAside arg)
    (h : readFrom d args = .ok c) : ∃ parts, Spells parts args := by
  -- On how many arguments there are, of which a part takes one or two.
  induction hn : args.length using Nat.strong_induction_on generalizing args d with
  | _ n ih =>
    cases args with
    | nil => exact ⟨[], .nil⟩
    | cons arg args =>
      obtain ⟨p, ws, rest, hsplit, hp⟩ := exists_part_of_readFrom (hargs arg List.mem_cons_self) h
      rw [hsplit] at h hargs hn
      rw [readFrom_append hp] at h
      obtain ⟨e, -, hrest⟩ := bind_eq_ok_iff.mp h
      have hlt : rest.length < n := by
        have hpos : 0 < ws.length := List.length_pos_iff.mpr hp.ne_nil
        rw [List.length_append] at hn
        omega
      obtain ⟨parts, hparts⟩ := ih _ hlt
        (fun arg harg ↦ hargs arg (List.mem_append_right ws harg)) hrest rfl
      exact ⟨p :: parts, hsplit ▸ .cons hp hparts⟩

theorem not_taken_blank {slot : Slot} : ¬ Draft.Taken {} slot := by
  cases slot with
  | file | format => simp [Draft.Taken]
  | switch s => cases s <;> simp [Draft.Taken, Switch.isOn]

theorem free_blank : Draft.Free {} parts ↔ (parts.map Part.slot).Nodup :=
  and_iff_right fun _ _ ↦ not_taken_blank

theorem mem_iff_has (h : (parts.map Part.slot).Nodup) :
    p ∈ parts ↔ (parts.foldl Draft.put {}).Has p := by
  rw [Draft.has_foldl_put (free_blank.mpr h)]
  exact (or_iff_left fun hp ↦ not_taken_blank hp.taken).symm

theorem asks_foldl_put (h : (parts.map Part.slot).Nodup) (hfile : .file path ∈ parts) :
    Asks parts path (parts.foldl Draft.put {}).options where
  file p := by
    have hpath : (parts.foldl Draft.put {}).file = some path := (mem_iff_has h).mp hfile
    rw [mem_iff_has h, Draft.Has, hpath, Option.some.injEq]
  format f := mem_iff_has h
  switch s := mem_iff_has h

theorem file_mem_slots : .file ∈ parts.map Part.slot ↔ ∃ path, .file path ∈ parts := by
  rw [List.mem_map]
  constructor
  · intro h
    obtain ⟨p, hp, hslot⟩ := h
    cases p with
    | file path => exact ⟨path, hp⟩
    | format | switch => cases hslot
  · intro h
    obtain ⟨path, hpath⟩ := h
    exact ⟨_, hpath, rfl⟩

theorem read_of_complete (h : Spells parts args) (hparts : Complete parts) :
    ∃ path o, read args = .ok (.dump path o) ∧ Asks parts path o := by
  obtain ⟨path, hpath⟩ := file_mem_slots.mp hparts.file
  have hasks := asks_foldl_put hparts.once hpath
  have hfile : (parts.foldl Draft.put {}).file = some path := (mem_iff_has hparts.once).mp hpath
  have hadd := (Draft.foldlM_add_eq_ok_iff h).mpr ⟨free_blank.mpr hparts.once, rfl⟩
  refine ⟨path, _, ?_, hasks⟩
  rw [read, readFrom_of_spells h, hadd]
  change Draft.finish _ = _
  rw [Draft.finish, hfile]

theorem complete_of_read (h : Spells parts args) (hread : read args = .ok c) : Complete parts := by
  rw [read, readFrom_of_spells h] at hread
  obtain ⟨e, hadd, hfinish⟩ := bind_eq_ok_iff.mp hread
  obtain ⟨hfree, rfl⟩ := (Draft.foldlM_add_eq_ok_iff h).mp hadd
  have honce := free_blank.mp hfree
  refine ⟨honce, file_mem_slots.mpr ?_⟩
  cases hfile : (parts.foldl Draft.put {}).file with
  | some path => exact ⟨path, (mem_iff_has honce).mpr hfile⟩
  | none =>
    rw [Draft.finish, hfile] at hfinish
    cases hfinish

theorem Complete.perm (h : Complete parts) (hperm : parts.Perm other) : Complete other where
  once := (hperm.map Part.slot).nodup_iff.mp h.once
  file := (hperm.map Part.slot).mem_iff.mp h.file

theorem Asks.perm (h : Asks parts path o) (hperm : parts.Perm other) : Asks other path o where
  file p := hperm.mem_iff.symm.trans (h.file p)
  format f := hperm.mem_iff.symm.trans (h.format f)
  switch s := hperm.mem_iff.symm.trans (h.switch s)

theorem Asks.unique {path' : String} {o' : Options} (h : Asks parts path o)
    (h' : Asks parts path' o') : path = path' ∧ o = o' := by
  have hswitch (s : Switch) : s.isOn o = s.isOn o' :=
    Bool.eq_iff_iff.mpr ((h.switch s).symm.trans (h'.switch s))
  refine ⟨(h.file path').mp ((h'.file path').mpr rfl), ?_⟩
  obtain ⟨f, p, c, t⟩ := o
  obtain ⟨f', p', c', t'⟩ := o'
  obtain rfl : f = f' := Option.ext fun g ↦ (h.format g).symm.trans (h'.format g)
  obtain rfl : p = p' := hswitch .positions
  obtain rfl : c = c' := hswitch .skipComments
  obtain rfl : t = t' := hswitch .strict
  rfl

theorem read_perm (h : Spells parts args) (hparts : Complete parts) (hperm : parts.Perm other)
    (h' : Spells other args') : read args' = read args := by
  obtain ⟨path, o, hread, hasks⟩ := read_of_complete h hparts
  obtain ⟨path', o', hread', hasks'⟩ := read_of_complete h' (hparts.perm hperm)
  obtain ⟨rfl, rfl⟩ := (hasks.perm hperm).unique hasks'
  rw [hread, hread']

/-- A command line that does not set its options aside asks for a dump just if it is made up of
complete parts. Their order has no part in the run, and neither has the way in which the format is
spelled. Any other command line fails whatever surrounds it, and nothing is dumped. -/
theorem command_line_parts (hargs : ∀ arg ∈ args, ¬ SetsAside arg) :
    ((∃ path o, read args = .ok (.dump path o)) ↔ ∃ parts, Spells parts args ∧ Complete parts) ∧
      (∀ parts, Spells parts args → Complete parts →
        (∃ path o, read args = .ok (.dump path o) ∧ Asks parts path o) ∧
          ∀ other args', parts.Perm other → Spells other args' → ∀ w, run w args' = run w args) ∧
      ((¬ ∃ parts, Spells parts args ∧ Complete parts) →
        ∀ w, (run w args).status = 1 ∧ (run w args).output = "") := by
  have hcomplete (c : Command) (hread : read args = .ok c) :
      ∃ parts, Spells parts args ∧ Complete parts := by
    obtain ⟨parts, hparts⟩ := exists_spells_of_readFrom hargs hread
    exact ⟨parts, hparts, complete_of_read hparts hread⟩
  refine ⟨⟨fun h ↦ ?_, fun h ↦ ?_⟩, fun parts hspells hparts ↦ ⟨?_, ?_⟩, fun hnone w ↦ ?_⟩
  · obtain ⟨path, o, hread⟩ := h
    exact hcomplete _ hread
  · obtain ⟨parts, hspells, hparts⟩ := h
    obtain ⟨path, o, hread, -⟩ := read_of_complete hspells hparts
    exact ⟨path, o, hread⟩
  · exact read_of_complete hspells hparts
  · intro other args' hperm hspells' w
    rw [run, run, read_perm hspells hparts hperm hspells']
  · cases hread : read args with
    | ok c => exact absurd (hcomplete c hread) hnone
    | error fault =>
      rw [run, hread]
      exact ⟨rfl, rfl⟩

/-- The same parts in two orders, the file being a dash; and a format that takes a switch for its
name, so that the switch is lost. -/
theorem command_line_parts_reordered :
    let args := ["--strict", "-", "--format", "json"]
    let other := ["--format", "--strict", "-"]
    (∀ arg ∈ args, ¬ SetsAside arg) ∧ (∀ arg ∈ other, ¬ SetsAside arg) ∧
      (∀ w, run w ["--format=json", "--strict", "-"] = run w args) ∧
      ∀ w, (run w other).status = 1 ∧ (run w other).output = "" := by
  intro args other
  have hargs : ∀ arg ∈ args, ¬ SetsAside arg := by decide +kernel
  have hother : ∀ arg ∈ other, ¬ SetsAside arg := by decide +kernel
  have hdash : (Part.file "-").Spelled ["-"] := .file (by decide) (.inl rfl)
  have hspells : Spells [.switch .strict, .file "-", .format .json] args :=
    .cons (.switch .strict) (.cons hdash (.cons (.apart .json) .nil))
  have hspells' : Spells [.format .json, .switch .strict, .file "-"]
      ["--format=json", "--strict", "-"] :=
    .cons (.joined .json) (.cons (.switch .strict) (.cons hdash .nil))
  have hperm : [Part.switch .strict, .file "-", .format .json].Perm
      [.format .json, .switch .strict, .file "-"] := by decide
  obtain ⟨-, hsame, -⟩ := command_line_parts hargs
  obtain ⟨haccepted, -, hfails⟩ := command_line_parts hother
  have hread : read other = .error (.unknownFormat "--strict") := by decide +kernel
  refine ⟨hargs, hother, (hsame _ hspells ⟨by decide, by decide⟩).2 _ _ hperm hspells', ?_⟩
  refine hfails fun hparts ↦ ?_
  obtain ⟨path, o, hdump⟩ := haccepted.mpr hparts
  rw [hread] at hdump
  cases hdump

end Lexemes.CommandLine
