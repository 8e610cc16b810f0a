import Lexemes.Proofs.Tokens

namespace Lexemes

open String Text

def between (source : String) (i j : Nat) : String :=
  Pos.Raw.extract source ⟨i⟩ ⟨j⟩

def Span.slice (a : Span) (source : String) : String :=
  between source a.start a.stop

/-- What the tokens leave out, from byte `n` on: before the first and between any two. -/
def gaps (source : String) : Nat → List Token → List String
  | _, [] => []
  | n, t :: ts => between source n t.span.start :: gaps source t.span.stop ts

def rebuild (source : String) : Nat → List Token → String
  | _, [] => ""
  | n, t :: ts =>
    between source n t.span.start ++ t.span.slice source ++ rebuild source t.span.stop ts

/-- The tokens `ts` give back `text`, which is what `source` holds from byte `n` on. -/
structure Lossless (source : String) (n : Nat) (text : String) (ts : List Token) : Prop where
  ordered : ts.Pairwise fun t u ↦ t.span.stop ≤ u.span.start
  bounded : ∀ t ∈ ts, n ≤ t.span.start ∧ t.span.start ≤ t.span.stop ∧
    t.span.stop ≤ source.utf8ByteSize
  boundaries : ∀ t ∈ ts, Pos.Raw.IsValid source ⟨t.span.start⟩ ∧
    Pos.Raw.IsValid source ⟨t.span.stop⟩
  blank : ∀ gap ∈ gaps source n ts, ∀ c ∈ gap.toList, isBlank c ∧ c ≠ '\n' ∧ c ≠ '\r'
  rebuilt : rebuild source n ts = text
  closed : ∃ body last, ts = body ++ [last] ∧ last.kind = .endOfInput ∧
    last.span = ⟨source.utf8ByteSize, source.utf8ByteSize⟩ ∧
    ∀ t ∈ body, t.kind ≠ .endOfInput ∧ t.span.start < t.span.stop
  text : ∀ t ∈ ts, t.text =
    if t.kind = .lineSeparator ∨ t.kind = .endOfInput then none else some (t.span.slice source)

variable {source : String} {l m r front gap s rest : List Char} {k : Kind}

theorem between_eq (h : source.toList = l ++ (m ++ r)) :
    between source (utf8Len l) (utf8Len l + utf8Len m) = ofList m := by
  have hs : source = ofList (l ++ m ++ r) := by
    rw [List.append_assoc, ← h, ofList_toList]
  rw [between, hs, extract_of_valid]

theorem isValid_utf8Len (h : source.toList = l ++ r) : Pos.Raw.IsValid source ⟨utf8Len l⟩ := by
  rw [Pos.Raw.isValid_iff_exists_append]
  refine ⟨ofList l, ofList r, ?_, (rawEndPos_ofList l).symm⟩
  rw [← ofList_append, ← h, ofList_toList]

theorem utf8Len_le (h : source.toList = l ++ r) : utf8Len l ≤ source.utf8ByteSize := by
  rw [← utf8Len_toList, h, utf8Len_append]
  omega

theorem isSpace_iff {c : Char} : isSpace c ↔ isBlank c ∧ c ≠ '\n' ∧ c ≠ '\r' := by
  simp [isSpace, isLineBreak]

structure Token.StandsFor (t : Token) (source : String) (front s : List Char) : Prop where
  start : t.span.start = utf8Len front
  stop : t.span.stop = utf8Len (front ++ s)
  slice : t.span.slice source = ofList s
  bounded : t.span.stop ≤ source.utf8ByteSize
  boundaries : Pos.Raw.IsValid source ⟨t.span.start⟩ ∧ Pos.Raw.IsValid source ⟨t.span.stop⟩
  text : t.text =
    if t.kind = .lineSeparator ∨ t.kind = .endOfInput then none else some (t.span.slice source)

theorem standsFor_ofLexeme {p : Place} (h : source.toList = front ++ (s ++ rest))
    (hp : p.offset = utf8Len front) : (Token.ofLexeme p k s).StandsFor source front s := by
  have happend : source.toList = (front ++ s) ++ rest := by rw [h, List.append_assoc]
  have hstart : (Token.ofLexeme p k s).span.start = utf8Len front := hp
  have hstop : (Token.ofLexeme p k s).span.stop = utf8Len (front ++ s) := by
    rw [utf8Len_append, ← hp]
    rfl
  have hslice : (Token.ofLexeme p k s).span.slice source = ofList s := by
    rw [Span.slice, hstart, hstop, utf8Len_append]
    exact between_eq h
  constructor
  case start => exact hstart
  case stop => exact hstop
  case slice => exact hslice
  case bounded => exact hstop ▸ utf8Len_le happend
  case boundaries =>
    rw [hstart, hstop]
    exact ⟨isValid_utf8Len h, isValid_utf8Len happend⟩
  case text =>
    rw [hslice]
    exact text_ofLexeme p

theorem between_gap {t : Token} (h : source.toList = l ++ (gap ++ rest))
    (ht : t.StandsFor source (l ++ gap) s) :
    between source (utf8Len l) t.span.start = ofList gap := by
  rw [ht.start, utf8Len_append]
  exact between_eq h

theorem lossless_spaces {t : Token} (h : source.toList = l ++ gap)
    (ht : t.StandsFor source (l ++ gap) []) (hk : t.kind = .endOfInput)
    (hgap : ∀ x ∈ gap, isSpace x) : Lossless source (utf8Len l) (ofList gap) [t] := by
  have hsize : source.utf8ByteSize = utf8Len (l ++ gap) := by rw [← utf8Len_toList, h]
  have hstart : t.span.start = source.utf8ByteSize := by rw [ht.start, hsize]
  have hstop : t.span.stop = source.utf8ByteSize := by rw [ht.stop, List.append_nil, hsize]
  have htail : source.toList = l ++ (gap ++ []) := by rw [List.append_nil, h]
  have hgapText := between_gap htail ht
  constructor
  case ordered => exact List.pairwise_singleton _ _
  case bounded =>
    intro u hu
    rw [List.mem_singleton.mp hu, hstart, hstop]
    exact ⟨utf8Len_le h, le_rfl, le_rfl⟩
  case boundaries =>
    intro u hu
    rw [List.mem_singleton.mp hu]
    exact ht.boundaries
  case blank => simpa [gaps, hgapText, ← isSpace_iff] using hgap
  case rebuilt => simp [rebuild, hgapText, ht.slice]
  case closed =>
    refine ⟨[], t, rfl, hk, ?_, by simp⟩
    calc
      t.span = ⟨t.span.start, t.span.stop⟩ := rfl
      _ = ⟨source.utf8ByteSize, source.utf8ByteSize⟩ := by rw [hstart, hstop]
  case text =>
    intro u hu
    rw [List.mem_singleton.mp hu]
    exact ht.text

theorem Lossless.cons {t : Token} {ts : List Token}
    (h : source.toList = l ++ (gap ++ (s ++ rest))) (ht : t.StandsFor source (l ++ gap) s)
    (hs : s ≠ []) (hk : t.kind ≠ .endOfInput) (hgap : ∀ x ∈ gap, isSpace x)
    (hts : Lossless source (utf8Len (l ++ gap ++ s)) (ofList rest) ts) :
    Lossless source (utf8Len l) (ofList (gap ++ (s ++ rest))) (t :: ts) := by
  have hgapText := between_gap h ht
  have hstart : utf8Len l ≤ t.span.start := by
    rw [ht.start, utf8Len_append]
    omega
  have hlt : t.span.start < t.span.stop := by
    have hpos := Nat.pos_of_ne_zero (mt utf8Len_eq_zero.mp hs)
    rw [ht.start, ht.stop, utf8Len_append _ s]
    omega
  rw [← ht.stop] at hts
  constructor
  case ordered =>
    refine List.pairwise_cons.mpr ⟨?_, hts.ordered⟩
    intro u hu
    exact (hts.bounded u hu).1
  case bounded =>
    refine List.forall_mem_cons.mpr ⟨⟨hstart, hlt.le, ht.bounded⟩, ?_⟩
    intro u hu
    have hu' := hts.bounded u hu
    omega
  case boundaries => exact List.forall_mem_cons.mpr ⟨ht.boundaries, hts.boundaries⟩
  case blank =>
    rw [gaps, hgapText]
    refine List.forall_mem_cons.mpr ⟨?_, hts.blank⟩
    simpa [← isSpace_iff] using hgap
  case rebuilt =>
    rw [rebuild, hgapText, ht.slice, hts.rebuilt, ← ofList_append, ← ofList_append,
      List.append_assoc]
  case closed =>
    obtain ⟨body, last, rfl, hlast, hspan, hbody⟩ := hts.closed
    exact ⟨t :: body, last, rfl, hlast, hspan, List.forall_mem_cons.mpr ⟨⟨hk, hlt⟩, hbody⟩⟩
  case text => exact List.forall_mem_cons.mpr ⟨ht.text, hts.text⟩

theorem lossless_tokensAt (p : Place) (text : List Char) (h : source.toList = l ++ text)
    (hp : p.offset = utf8Len l) :
    Lossless source (utf8Len l) (ofList text) (tokensAt p text) := by
  induction text using munch_induction generalizing p l with
  | spaces text hspaces =>
    have hend : (p.through text []).offset = utf8Len (l ++ text) := by
      rw [Place.offset_through, hp, utf8Len_append]
    have htail : source.toList = (l ++ text) ++ ([] ++ []) := by simpa using h
    rw [tokensAt_spaces hspaces]
    exact lossless_spaces h (standsFor_ofLexeme htail hend) rfl hspaces
  | lexeme gap k s rest hgap hs ih =>
    have hstart : (p.through gap (s ++ rest)).offset = utf8Len (l ++ gap) := by
      rw [Place.offset_through, hp, utf8Len_append]
    have hstop : (p.through (gap ++ s) rest).offset = utf8Len (l ++ gap ++ s) := by
      rw [Place.offset_through_append, hstart, utf8Len_append (l ++ gap)]
    rw [tokensAt_lexeme hgap hs]
    exact .cons h (standsFor_ofLexeme (by simpa using h) hstart) hs.isLexeme.ne_nil
      hs.isLexeme.ne_endOfInput hgap (ih _ (by simpa using h) hstop)

/-- The token is read off `s`, which is the longest lexeme of the source behind `front`. -/
structure Token.ReadsLexeme (t : Token) (source : String) (front s rest : List Char) : Prop where
  split : source.toList = front ++ (s ++ rest)
  longest : Longest t.kind s (s ++ rest)
  token : ∃ p : Place, p.offset = utf8Len front ∧ t = .ofLexeme p t.kind s

theorem Token.ReadsLexeme.standsFor {t : Token} (h : t.ReadsLexeme source front s rest) :
    t.StandsFor source front s := by
  obtain ⟨p, hp, ht⟩ := h.token
  rw [ht]
  exact standsFor_ofLexeme h.split hp

theorem readsLexeme_tokensAt (p : Place) (text : List Char) (h : source.toList = l ++ text)
    (hp : p.offset = utf8Len l) : ∀ t ∈ tokensAt p text, t.kind ≠ .endOfInput →
      ∃ front s rest, t.ReadsLexeme source front s rest := by
  induction text using munch_induction generalizing p l with
  | spaces text hspaces =>
    rw [tokensAt_spaces hspaces, List.forall_mem_singleton]
    exact fun hk ↦ absurd rfl hk
  | lexeme gap k s rest hgap hs ih =>
    have hstart : (p.through gap (s ++ rest)).offset = utf8Len (l ++ gap) := by
      rw [Place.offset_through, hp, utf8Len_append]
    have hstop : (p.through (gap ++ s) rest).offset = utf8Len (l ++ gap ++ s) := by
      rw [Place.offset_through_append, hstart, utf8Len_append (l ++ gap)]
    rw [tokensAt_lexeme hgap hs, List.forall_mem_cons]
    refine ⟨fun _ ↦ ⟨l ++ gap, s, rest, ?_, hs, _, hstart, rfl⟩, ih _ (by simpa using h) hstop⟩
    rw [h, List.append_assoc]

theorem readsLexeme_of_mem {t : Token} (h : t ∈ tokens source) (hk : t.kind ≠ .endOfInput) :
    ∃ front s rest, t.ReadsLexeme source front s rest :=
  readsLexeme_tokensAt {} source.toList (List.nil_append _).symm rfl t h hk

theorem standsFor_next {p : Place} (h : source.toList = l ++ (gap ++ (s ++ rest)))
    (hp : p.offset = utf8Len l) :
    (Token.ofLexeme (p.through gap (s ++ rest)) k s).StandsFor source (l ++ gap) s := by
  refine standsFor_ofLexeme (by simpa using h) ?_
  rw [Place.offset_through, hp, utf8Len_append]

theorem standsFor_end {p : Place} (h : source.toList = l ++ gap) (hp : p.offset = utf8Len l) :
    (Token.ofLexeme (p.through gap []) .endOfInput []).StandsFor source (l ++ gap) [] :=
  standsFor_next (by simpa using h : source.toList = l ++ (gap ++ ([] ++ []))) hp

theorem offset_behind_next {p : Place} (hp : p.offset = utf8Len l) :
    (p.through (gap ++ s) rest).offset = utf8Len (l ++ gap ++ s) := by
  rw [Place.offset_through, hp, List.append_assoc, utf8Len_append l]

/-- Scanning loses nothing of any source. -/
theorem tokens_lossless (source : String) : Lossless source 0 source (tokens source) := by
  have h := lossless_tokensAt (l := []) {} source.toList rfl rfl
  rwa [ofList_toList] at h

end Lexemes
