import Lexemes.Proofs.Places
import Lexemes.Proofs.Printing
import Lexemes.Proofs.RoundTrip
import Mathlib.Data.List.Forall2

namespace Lexemes

open String Text

section Lines

variable {ls : List (List Char)} {name rest : List Char}

theorem splitOn_ended (h : ∀ l ∈ ls, '\n' ∉ l) :
    (ls.flatMap (· ++ ['\n'])).splitOn '\n' = ls ++ [[]] := by
  induction ls with
  | nil => exact List.splitOn_nil '\n'
  | cons l ls ih =>
    obtain ⟨hl, hls⟩ := List.forall_mem_cons.mp h
    have hrun : ∀ x ∈ l, (x == '\n') = false := by
      intro x hx
      refine beq_false_of_ne fun hn ↦ hl ?_
      rwa [hn] at hx
    have hsplit := List.splitOnP_append_cons_of_forall_mem hrun '\n' rfl (ls.flatMap (· ++ ['\n']))
    rw [List.flatMap_cons, List.append_assoc, List.singleton_append, List.splitOn, hsplit,
      List.cons_append]
    exact congrArg _ (ih hls)

/-- What stands in front of the first space of a line, and what behind it if there is one. -/
def cutAtSpace (line : List Char) : List Char × Option (List Char) :=
  (line.takeWhile (· != ' '), (line.dropWhile (· != ' ')).tail?)

theorem cutAtSpace_append (hname : ' ' ∉ name) (hrest : ∀ c ∈ rest.head?, c = ' ') :
    cutAtSpace (name ++ rest) = (name, rest.tail?) := by
  have hrun : ∀ x ∈ name, (x != ' ') = true := by
    intro x hx
    refine bne_iff_ne.mpr fun hspace ↦ hname ?_
    rwa [hspace] at hx
  have hhead : ∀ x ∈ rest.head?, (x != ' ') = false := by
    intro x hx
    rw [hrest x hx]
    rfl
  rw [cutAtSpace, takeWhile_run hrun hhead, dropWhile_run hrun hhead]

end Lines

def Token.OneLine (t : Token) : Prop :=
  '\n' ∉ (t.text.getD "").toList

instance (t : Token) : Decidable t.OneLine :=
  inferInstanceAs (Decidable (¬ _))

/-- The line tells the kind and the text of the token, with a space only where there is a text. -/
structure Token.ShownBy (t : Token) (line : List Char) : Prop where
  cut : cutAtSpace line = (t.kind.name.toList, t.text.map toList)
  unspaced : ' ' ∉ line ↔ t.text = none

def Settings.shown (s : Settings) (ts : List Token) : List Token :=
  if s.skipComments then ts.filter (·.kind != .comment) else ts

variable {t u : Token} {ts us : List Token} {s : Settings} {line : List Char}

theorem name_unbroken (k : Kind) : ' ' ∉ k.name.toList ∧ '\n' ∉ k.name.toList := by
  cases k <;> decide

theorem plainLine_eq (t : Token) : t.plainLine =
    t.kind.name.toList ++ (t.text.map fun text ↦ ' ' :: text.toList).getD [] := by
  unfold Token.plainLine
  split <;> simp [*]

theorem shownBy_plainLine (t : Token) : t.ShownBy t.plainLine := by
  obtain ⟨hname, -⟩ := name_unbroken t.kind
  rw [plainLine_eq]
  constructor
  case cut =>
    cases t.text with
    | none => exact cutAtSpace_append hname (by simp)
    | some text => exact cutAtSpace_append hname (by simp)
  case unspaced =>
    cases t.text with
    | none => simpa using hname
    | some text => simp

theorem Token.ShownBy.item_eq (ht : t.ShownBy line) (hu : u.ShownBy line) : t.item = u.item := by
  obtain ⟨hname, htext⟩ := Prod.mk.inj (ht.cut.symm.trans hu.cut)
  have hkind : t.kind = u.kind := Kind.name_injective (toList_injective hname)
  have htext' : t.text = u.text := Option.map_injective (fun _ _ ↦ toList_injective) htext
  rw [Token.item, Token.item, hkind, htext']

theorem plainLine_inj : t.plainLine = u.plainLine ↔ t.item = u.item := by
  constructor
  · intro h
    exact (h ▸ shownBy_plainLine t).item_eq (shownBy_plainLine u)
  · intro h
    obtain ⟨hkind, htext⟩ := Item.mk.inj h
    rw [plainLine_eq, plainLine_eq, hkind, htext]

theorem map_eq_map_iff_forall₂ {α β : Type} {f : α → β} {as bs : List α} :
    as.map f = bs.map f ↔ List.Forall₂ (fun a b ↦ f a = f b) as bs := by
  calc
    as.map f = bs.map f ↔ List.Forall₂ (· = ·) (as.map f) (bs.map f) := by
      rw [List.forall₂_eq_eq_eq]
    _ ↔ List.Forall₂ (fun a b ↦ f a = f b) as bs := by
      rw [List.forall₂_map_left_iff, List.forall₂_map_right_iff]

theorem map_plainLine_inj :
    ts.map Token.plainLine = us.map Token.plainLine ↔ ts.map Token.item = us.map Token.item := by
  simp only [map_eq_map_iff_forall₂, plainLine_inj]

theorem Token.OneLine.plainLine (h : t.OneLine) : '\n' ∉ t.plainLine := by
  obtain ⟨-, hname⟩ := name_unbroken t.kind
  rw [plainLine_eq]
  cases htext : t.text with
  | none => simpa using hname
  | some text =>
    have htext' : '\n' ∉ text.toList := by simpa [OneLine, htext] using h
    simp [hname, htext']

theorem dump_text (hs : s.format = .text) :
    (dump s ts).toList = ((s.shown ts).map s.line).flatMap (· ++ ['\n']) := by
  have hshown : ts.filter s.shows = s.shown ts := filter_shows
  rw [dump, hs, hshown, List.flatMap_map]
  exact toList_ofList

theorem splitOn_dump (hs : s.format = .text) (h : ∀ t ∈ s.shown ts, '\n' ∉ s.line t) :
    (dump s ts).toList.splitOn '\n' = (s.shown ts).map s.line ++ [[]] := by
  rw [dump_text hs, splitOn_ended (by simpa using h)]

theorem dump_text_inj (hs : s.format = .text) (hts : ∀ t ∈ s.shown ts, '\n' ∉ s.line t)
    (hus : ∀ t ∈ s.shown us, '\n' ∉ s.line t) :
    dump s ts = dump s us ↔ (s.shown ts).map s.line = (s.shown us).map s.line := by
  constructor
  · intro h
    have hlines := splitOn_dump hs hts
    rw [h, splitOn_dump hs hus] at hlines
    exact (List.append_cancel_right hlines).symm
  · intro h
    apply toList_injective
    rw [dump_text hs, dump_text hs, h]

theorem mem_of_mem_shown (h : t ∈ s.shown ts) : t ∈ ts := by
  unfold Settings.shown at h
  split at h
  · exact List.mem_of_mem_filter h
  · exact h

theorem line_plain (hplain : s.positions = false) : s.line = Token.plainLine :=
  funext fun _ ↦ if_neg (by simp [hplain])

theorem splitOn_dump_plain (hs : s.format = .text) (hplain : s.positions = false)
    (h : ∀ t ∈ ts, t.OneLine) :
    (dump s ts).toList.splitOn '\n' = (s.shown ts).map Token.plainLine ++ [[]] := by
  rw [← line_plain hplain]
  refine splitOn_dump hs fun t ht ↦ ?_
  rw [line_plain hplain]
  exact (h t (mem_of_mem_shown ht)).plainLine

theorem dump_plain_inj (hs : s.format = .text) (hplain : s.positions = false)
    (hts : ∀ t ∈ ts, t.OneLine) (hus : ∀ t ∈ us, t.OneLine) :
    dump s ts = dump s us ↔ (s.shown ts).map Token.item = (s.shown us).map Token.item := by
  rw [← map_plainLine_inj]
  constructor
  · intro h
    have hlines := splitOn_dump_plain hs hplain hts
    rw [h, splitOn_dump_plain hs hplain hus] at hlines
    exact (List.append_cancel_right hlines).symm
  · intro h
    apply toList_injective
    rw [dump_text hs, dump_text hs, line_plain hplain, h]

theorem oneLine_ofLexeme {p : Place} {k : Kind} {cs : List Char}
    (h : IsLexeme k cs ∨ k = .endOfInput) : (Token.ofLexeme p k cs).OneLine := by
  have htext := text_ofLexeme (k := k) (s := cs) p
  split_ifs at htext with hk
  · simp [Token.OneLine, htext]
  · obtain ⟨hsep, hend⟩ := not_or.mp hk
    have hunbroken := (h.resolve_right hend).unbroken hsep
    rw [Token.OneLine, htext, Option.getD_some, toList_ofList]
    intro hmem
    exact absurd (hunbroken '\n' hmem) (by decide)

theorem oneLine_tokensAt {p : Place} {cs : List Char} : ∀ t ∈ tokensAt p cs, t.OneLine := by
  induction cs using munch_induction generalizing p with
  | spaces cs h =>
    rw [tokensAt_spaces h, List.forall_mem_singleton]
    exact oneLine_ofLexeme (.inr rfl)
  | lexeme gap k s rest hgap hs ih =>
    rw [tokensAt_lexeme hgap hs, List.forall_mem_cons]
    exact ⟨oneLine_ofLexeme (.inl hs.isLexeme), ih⟩

/-- A plain dump tells kinds and texts, line by line, and it tells nothing else. -/
theorem dump_plain_invertible (s : Settings) (hs : s.format = .text) (hplain : s.positions = false) :
    (∀ source, ∀ t ∈ tokens source, t.OneLine) ∧
      (∀ ts : List Token, (∀ t ∈ ts, t.OneLine) →
        ∃ ls, (dump s ts).toList.splitOn '\n' = ls ++ [[]] ∧
          List.Forall₂ Token.ShownBy (s.shown ts) ls) ∧
      ∀ ts us : List Token, (∀ t ∈ ts, t.OneLine) → (∀ t ∈ us, t.OneLine) →
        (dump s ts = dump s us ↔ (s.shown ts).map Token.item = (s.shown us).map Token.item) := by
  refine ⟨fun source ↦ oneLine_tokensAt, fun ts hts ↦ ?_, fun ts us ↦ dump_plain_inj hs hplain⟩
  refine ⟨_, splitOn_dump_plain hs hplain hts, ?_⟩
  rw [List.forall₂_map_right_iff, List.forall₂_same]
  exact fun t _ ↦ shownBy_plainLine t

theorem dump_plain_without_comments :
    let s : Settings := { skipComments := true }
    dump s (tokens "a // b\r\n\"c  d") = dump s (tokens "a\n \n\"c  d") := by
  intro s
  obtain ⟨hone, -, hinj⟩ := dump_plain_invertible s rfl rfl
  exact (hinj _ _ (hone _) (hone _)).mpr (by decide +kernel)

end Lexemes
