import Lexemes.Proofs.Lossless
import Lexemes.Proofs.Places
import Lexemes.Proofs.Printing

namespace Lexemes

open String Text

namespace Token

def Straddles (t : Token) (n : Nat) : Prop :=
  t.span.start < n ∧ n < t.span.stop

instance (t : Token) (n : Nat) : Decidable (t.Straddles n) :=
  inferInstanceAs (Decidable (_ ∧ _))

/-- The token has ended at byte `n`; the end of the input never has. -/
def endsBy (n : Nat) (t : Token) : Bool :=
  !t.isEnd && decide (t.span.stop ≤ n)

def shift (p : Place) (t : Token) : Token where
  kind := t.kind
  text := t.text
  span := ⟨p.offset + t.span.start, p.offset + t.span.stop⟩
  line := t.line + (p.line - 1)
  column := if t.line = 1 then t.column + (p.column - 1) else t.column

end Token

/-- In the text `front ++ rest` no lexeme lies across the cut. -/
inductive Cuts : List Char → List Char → Prop
  | spaces {gap rest : List Char} (h : ∀ x ∈ gap, isSpace x) : Cuts gap rest
  | lexeme {gap s front rest : List Char} {k : Kind} (hgap : ∀ x ∈ gap, isSpace x)
      (hs : Longest k s (s ++ (front ++ rest))) (h : Cuts front rest) :
      Cuts (gap ++ (s ++ front)) rest

variable {p q : Place} {k : Kind} {s cs gap front rest : List Char} {source : String}

theorem straddles_ofLexeme {n : Nat} : (Token.ofLexeme p k s).Straddles n ↔
    p.offset < n ∧ n < p.offset + utf8Len s :=
  Iff.rfl

theorem endsBy_iff {t : Token} {n : Nat} :
    t.endsBy n ↔ t.kind ≠ .endOfInput ∧ t.span.stop ≤ n := by
  simp [Token.endsBy, Token.isEnd]

theorem utf8Len_pos (h : s ≠ []) : 0 < utf8Len s :=
  Nat.pos_of_ne_zero (mt utf8Len_eq_zero.mp h)

theorem cuts_nil : Cuts [] rest := .spaces (by simp)

theorem cuts_within (hgap : ∀ x ∈ gap, isSpace x) (hs : Longest k (front ++ s) (front ++ s ++ rest))
    (h : ¬ (Token.ofLexeme (p.through gap (front ++ s ++ rest)) k (front ++ s)).Straddles
      (p.offset + utf8Len (gap ++ front))) : Cuts (gap ++ front) (s ++ rest) := by
  by_cases hfront : front = []
  · subst hfront
    simpa using (Cuts.spaces hgap : Cuts gap (s ++ rest))
  by_cases hnil : s = []
  · subst hnil
    have hcut : Cuts (gap ++ (front ++ [])) rest := .lexeme hgap (by simpa using hs) cuts_nil
    simpa using hcut
  · refine absurd ?_ h
    have hfrontPos := utf8Len_pos hfront
    have hpos := utf8Len_pos hnil
    rw [straddles_ofLexeme, Place.offset_through, utf8Len_append, utf8Len_append]
    omega

theorem cuts_of_tokensAt
    (h : ∀ t ∈ tokensAt p (front ++ rest), ¬ t.Straddles (p.offset + utf8Len front)) :
    Cuts front rest := by
  generalize hcs : front ++ rest = cs at h
  induction cs using munch_induction generalizing p front with
  | spaces cs hspaces =>
    subst hcs
    exact .spaces (List.forall_mem_append.mp hspaces).1
  | lexeme gap k s tail hgap hs ih =>
    rw [tokensAt_lexeme hgap hs, List.forall_mem_cons] at h
    obtain ⟨hfirst, htail⟩ := h
    rcases List.append_eq_append_iff.mp hcs with ⟨gap', rfl, -⟩ | ⟨front, rfl, hbehind⟩
    · exact .spaces (List.forall_mem_append.mp hgap).1
    rcases List.append_eq_append_iff.mp hbehind with ⟨front', rfl, rfl⟩ | ⟨s', rfl, rfl⟩
    · have hoffset := Place.offset_through p (gap ++ s) (front' ++ rest)
      rw [← List.append_assoc, utf8Len_append, ← Nat.add_assoc, ← hoffset] at htail
      exact .lexeme hgap hs (ih rfl htail)
    · exact cuts_within hgap hs hfirst

theorem Cuts.not_tearsBreak (h : Cuts front rest) : ¬ TearsBreak front rest := by
  induction h with
  | @spaces gap rest hgap =>
    have hnone : ¬ TearsBreak ([] ++ gap) rest := not_tearsBreak_gap hgap not_tearsBreak_nil
    simpa using hnone
  | @lexeme gap s front rest k hgap hs h ih =>
    by_cases hfront : front = []
    · subst hfront
      have hwhole : ¬ TearsBreak (gap ++ s) ([] ++ rest) := hs.not_tearsBreak
      simpa using hwhole
    · rwa [← List.append_assoc, tearsBreak_append hfront]

theorem Cuts.tokensAt_append (h : Cuts front rest) :
    tokensAt p (front ++ rest) = lexemesAt p front ++ tokensAt (p.through front rest) rest := by
  induction h generalizing p with
  | spaces hgap => rw [tokensAt_gap hgap, lexemesAt_spaces hgap, List.nil_append]
  | @lexeme gap s front rest k hgap hs h ih =>
    have hgap' := unbroken_of_isSpace hgap
    have hstart : p.through gap (s ++ (front ++ rest)) = p.through gap (s ++ front) := by
      rw [Place.through_of_unbroken _ _ _ hgap', Place.through_of_unbroken _ _ _ hgap']
    have hstop : p.through (gap ++ s) (front ++ rest) = p.through (gap ++ s) front := by
      rw [Place.through_of_not_tearsBreak hs.not_tearsBreak,
        Place.through_of_not_tearsBreak hs.cut.not_tearsBreak]
    have hend : p.through (gap ++ (s ++ front)) rest =
        (p.through (gap ++ s) (front ++ rest)).through front rest := by
      rw [← List.append_assoc, Place.through_append]
    rw [List.append_assoc, List.append_assoc, tokensAt_lexeme hgap hs, lexemesAt_lexeme hgap hs.cut,
      ih, hend, hstart, hstop, List.cons_append]

theorem lexemesAt_endsBy : ∀ t ∈ lexemesAt p cs, t.endsBy (p.offset + utf8Len cs) := by
  induction cs using munch_induction generalizing p with
  | spaces cs h => simp [lexemesAt_spaces h]
  | lexeme gap k s rest hgap hs ih =>
    have hfirst := Place.offset_through_append p gap s rest
    have hrest := Place.offset_through p (gap ++ s) rest
    rw [lexemesAt_lexeme hgap hs, ← List.append_assoc, utf8Len_append, ← Nat.add_assoc, ← hrest]
    refine List.forall_mem_cons.mpr ⟨endsBy_iff.mpr ⟨hs.isLexeme.ne_endOfInput, ?_⟩, ih⟩
    exact hfirst ▸ Nat.le_add_right _ _

theorem tokensAt_not_endsBy {n : Nat} (hn : n ≤ p.offset) : ∀ t ∈ tokensAt p cs, ¬ t.endsBy n := by
  induction cs using munch_induction generalizing p with
  | spaces cs h =>
    rw [tokensAt_spaces h, List.forall_mem_singleton]
    exact fun hends ↦ (endsBy_iff.mp hends).1 rfl
  | lexeme gap k s rest hgap hs ih =>
    have hpos := utf8Len_pos hs.isLexeme.ne_nil
    have hstart := Place.offset_through p gap (s ++ rest)
    have hstop := Place.offset_through_append p gap s rest
    rw [tokensAt_lexeme hgap hs, List.forall_mem_cons]
    refine ⟨fun hends ↦ ?_, ih (by omega)⟩
    have hle : (p.through gap (s ++ rest)).offset + utf8Len s ≤ n := (endsBy_iff.mp hends).2
    omega

theorem ofLexeme_shift : Token.ofLexeme (p.shift q) k s = (Token.ofLexeme q k s).shift p := by
  have hstop := Nat.add_assoc p.offset q.offset (utf8Len s)
  simp only [Token.ofLexeme, Token.shift, Place.shift, hstop]
  rfl

theorem tokensAt_shift (h : q.Counted) :
    tokensAt (p.shift q) cs = (tokensAt q cs).map (Token.shift p) := by
  induction cs using munch_induction generalizing q with
  | spaces cs hspaces =>
    rw [tokensAt_spaces hspaces, tokensAt_spaces hspaces, Place.through_shift h, ofLexeme_shift]
    rfl
  | lexeme gap k s rest hgap hs ih =>
    rw [tokensAt_lexeme hgap hs, tokensAt_lexeme hgap hs, Place.through_shift h,
      Place.through_shift h, ofLexeme_shift, ih h.through, List.map_cons]

theorem counted_behind (front : List Char) : (Place.behind front).Counted :=
  ⟨Nat.le_add_right _ _, Nat.le_add_right _ _⟩

theorem endsBy_front : ∀ t ∈ lexemesAt {} front, t.endsBy (utf8Len front) = true := by
  have hends : ∀ t ∈ lexemesAt {} front, t.endsBy (0 + utf8Len front) := lexemesAt_endsBy
  rwa [Nat.zero_add] at hends

theorem endsBy_behind : ∀ t ∈ tokensAt (Place.behind front) rest,
    t.endsBy (utf8Len front) = false := by
  intro t ht
  exact Bool.eq_false_iff.mpr (tokensAt_not_endsBy le_rfl t ht)

theorem Cuts.tokensAt_start (h : Cuts front rest) :
    tokensAt {} (front ++ rest) = lexemesAt {} front ++ tokensAt (Place.behind front) rest := by
  rw [h.tokensAt_append, Place.through_eq_behind h.not_tearsBreak]

theorem Cuts.tokens_front (h : Cuts front rest) :
    tokensAt {} front = (tokensAt {} (front ++ rest)).filter (Token.endsBy (utf8Len front)) ++
      [.ofLexeme (Place.behind front) .endOfInput []] := by
  have hbehind :
      (tokensAt (Place.behind front) rest).filter (Token.endsBy (utf8Len front)) = [] := by
    simpa using endsBy_behind
  rw [h.tokensAt_start, List.filter_append, List.filter_eq_self.mpr endsBy_front, hbehind,
    List.append_nil, tokensAt_eq_lexemesAt, ← Place.through_of_not_tearsBreak h.not_tearsBreak,
    Place.through_eq_behind h.not_tearsBreak]

theorem Cuts.tokens_rest (h : Cuts front rest) :
    (tokensAt {} (front ++ rest)).filter (!Token.endsBy (utf8Len front) ·) =
      (tokensAt {} rest).map (Token.shift (Place.behind front)) := by
  have hfront : (lexemesAt {} front).filter (!Token.endsBy (utf8Len front) ·) = [] := by
    simpa using endsBy_front
  have hbehind : (tokensAt (Place.behind front) rest).filter (!Token.endsBy (utf8Len front) ·) =
      tokensAt (Place.behind front) rest := by
    simpa using endsBy_behind
  rw [h.tokensAt_start, List.filter_append, hfront, hbehind, List.nil_append,
    ← tokensAt_shift Place.counted_start, Place.shift_start (counted_behind front)]

theorem item_tokens_slice {t : Token} (ht : t ∈ tokens source) (hk : t.kind ≠ .endOfInput) :
    (tokens (t.span.slice source)).map Token.item = [t.item, ⟨.endOfInput, none⟩] := by
  obtain ⟨front, s, rest, h⟩ := readsLexeme_of_mem ht hk
  obtain ⟨p, -, htoken⟩ := h.token
  have halone : Longest t.kind s (s ++ []) := by simpa using longest_self h.longest.isLexeme
  have hscan := tokensAt_longest (p := {}) halone
  have hnone : tokensAt (({} : Place).through s []) [] = [.ofLexeme _ .endOfInput []] :=
    tokensAt_spaces (by simp)
  have hitem : (Token.ofLexeme {} t.kind s).item = t.item := by rw [htoken]; rfl
  rw [List.append_nil, hnone] at hscan
  rw [h.standsFor.slice, tokens_eq_tokensAt, toList_ofList, hscan, List.map_cons, hitem]
  rfl

theorem exists_cut {n : Nat} (h : Pos.Raw.IsValid source ⟨n⟩) : ∃ front rest,
    source.toList = front ++ rest ∧ utf8Len front = n ∧ between source 0 n = ofList front ∧
      between source n source.utf8ByteSize = ofList rest := by
  obtain ⟨a, b, rfl, hn⟩ := Pos.Raw.isValid_iff_exists_append.mp h
  have hlen : utf8Len a.toList = n := by
    rw [utf8Len_toList]
    exact (congrArg Pos.Raw.byteIdx hn).symm
  have hsplit : (a ++ b).toList = a.toList ++ b.toList := toList_append
  have hfront : between (a ++ b) (utf8Len []) (utf8Len [] + utf8Len a.toList) = ofList a.toList :=
    between_eq hsplit
  have hend : (a ++ b).toList = a.toList ++ (b.toList ++ []) := by rw [hsplit, List.append_nil]
  have hrest : between (a ++ b) (utf8Len a.toList) (utf8Len a.toList + utf8Len b.toList) =
      ofList b.toList := between_eq hend
  have hsize : (a ++ b).utf8ByteSize = utf8Len a.toList + utf8Len b.toList := by
    rw [← utf8Len_toList, hsplit, utf8Len_append]
  rw [utf8Len_nil, Nat.zero_add, hlen] at hfront
  rw [← hsize, hlen] at hrest
  exact ⟨a.toList, b.toList, hsplit, hlen, hfront, hrest⟩

/-- A source can be cut wherever no token lies across the cut. The part in front has the tokens in
front, the part behind has the others, apart from where they stand. -/
theorem tokens_cut (source : String) :
    (∀ n, Pos.Raw.IsValid source ⟨n⟩ → (∀ t ∈ tokens source, ¬ t.Straddles n) →
      let front := between source 0 n
      let place := Place.behind front.toList
      tokens front = (tokens source).filter (Token.endsBy n) ++
          [⟨.endOfInput, none, ⟨n, n⟩, place.line, place.column⟩] ∧
        (tokens source).filter (!Token.endsBy n ·) =
          (tokens (between source n source.utf8ByteSize)).map (Token.shift place)) ∧
      ∀ t ∈ tokens source, t.kind ≠ .endOfInput →
        (tokens (t.span.slice source)).map Token.item = [t.item, ⟨.endOfInput, none⟩] := by
  refine ⟨fun n hvalid hcut ↦ ?_, fun t ht hk ↦ item_tokens_slice ht hk⟩
  obtain ⟨front, rest, hsource, rfl, hfront, hrest⟩ := exists_cut hvalid
  have htokens : tokens source = tokensAt {} (front ++ rest) := by rw [tokens_eq_tokensAt, hsource]
  rw [htokens] at hcut ⊢
  have hcuts : Cuts front rest := cuts_of_tokensAt (p := {}) (by rwa [Nat.zero_add])
  simp only [hfront, hrest, toList_ofList, tokens_eq_tokensAt]
  exact ⟨hcuts.tokens_front, hcuts.tokens_rest⟩

/-- Behind a cut within a line the string moves by a line and two columns, the stray by a line. -/
theorem tokens_cut_within_line :
    let source := "a\n\tb \"c\r\n ?"
    let unclosed : Token := ⟨.illegal, some "\"c", ⟨5, 7⟩, 2, 4⟩
    (Pos.Raw.IsValid source ⟨4⟩ ∧ (∀ t ∈ tokens source, ¬ t.Straddles 4) ∧
      (tokens source).filter (!Token.endsBy 4 ·) =
        (tokens (between source 4 11)).map (Token.shift ⟨4, 2, 3⟩)) ∧
      unclosed ∈ tokens source ∧
      (tokens (unclosed.span.slice source)).map Token.item =
        [unclosed.item, ⟨.endOfInput, none⟩] := by
  intro source unclosed
  have hsplit : source.toList = ['a', '\n', '\t', 'b'] ++ " \"c\r\n ?".toList := by decide
  have hvalid : Pos.Raw.IsValid source ⟨4⟩ := isValid_utf8Len hsplit
  have hcut : ∀ t ∈ tokens source, ¬ t.Straddles 4 := by decide +kernel
  have hopen : unclosed ∈ tokens source := by decide +kernel
  have hplace : Place.behind (between source 0 4).toList = ⟨4, 2, 3⟩ := by decide +kernel
  have hsize : source.utf8ByteSize = 11 := by decide +kernel
  have hrest := ((tokens_cut source).1 4 hvalid hcut).2
  rw [hplace, hsize] at hrest
  exact ⟨⟨hvalid, hcut, hrest⟩, hopen, (tokens_cut source).2 unclosed hopen (by decide)⟩

end Lexemes
