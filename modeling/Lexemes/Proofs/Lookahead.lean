import Lexemes.Proofs.Cutting

namespace Lexemes

open String Text

namespace Token

def IsLoneDot (t : Token) : Prop :=
  t.kind = .illegal ∧ t.text = some "."

instance (t : Token) : Decidable t.IsLoneDot :=
  inferInstanceAs (Decidable (_ ∧ _))

def stopIndex (source : String) (t : Token) : Nat :=
  (between source 0 t.span.stop).length

end Token

variable {p : Place} {k : Kind} {s front seen rest more more' : List Char} {source other : String}
  {t : Token} {i n : Nat}

theorem Longest.of_seen (h : Longest k s (s ++ (seen ++ more))) (hseen : seen ≠ [])
    (hdot : s = ['.'] → 2 ≤ seen.length) : Longest k s (s ++ (seen ++ more')) := by
  obtain ⟨hs, hnext, hdots⟩ := longest_append_iff.mp h
  rw [List.head?_append_of_ne_nil _ hseen] at hnext
  refine longest_append_iff.mpr ⟨hs, ?_, fun hlone hfront ↦ hdots hlone ?_⟩
  · rwa [List.head?_append_of_ne_nil _ hseen]
  · have hboth : ['.', '.'] <+: seen :=
      List.prefix_of_prefix_length_le hfront (List.prefix_append seen more') (hdot hlone)
    exact hboth.trans (List.prefix_append seen more)

theorem exists_of_utf8Len_le {as bs cs ds : List Char} (h : as ++ bs = cs ++ ds)
    (hlen : utf8Len cs ≤ utf8Len as) : ∃ run, as = cs ++ run ∧ ds = run ++ bs := by
  rcases List.append_eq_append_iff.mp h with ⟨run, rfl, rfl⟩ | hrun
  · have hnil : run = [] := by
      rw [utf8Len_append] at hlen
      exact utf8Len_eq_zero.mp (by omega)
    subst hnil
    exact ⟨[], by simp, by simp⟩
  · exact hrun

theorem isLoneDot_ofLexeme (hs : IsLexeme k ['.']) : (Token.ofLexeme p k ['.']).IsLoneDot := by
  rcases isLexeme_dot_iff.mp hs with ⟨rfl, -⟩ | ⟨-, h⟩
  · exact ⟨rfl, rfl⟩
  · cases h

theorem lt_stop_of_mem_lexemesAt (ht : t ∈ lexemesAt p rest) : p.offset < t.span.stop := by
  obtain ⟨hmem, hend⟩ := List.mem_filter.mp ht
  have hnot := tokensAt_not_endsBy le_rfl t hmem
  simpa [Token.endsBy, hend] using hnot

theorem lexemesAt_longest (hgap : ∀ x ∈ gap, isSpace x) (hs : Longest k s (s ++ rest)) :
    lexemesAt p (gap ++ (s ++ rest)) =
      .ofLexeme (p.through gap []) k s :: lexemesAt (p.through (gap ++ s) []) rest := by
  have hgap' := unbroken_of_isSpace hgap
  rw [lexemesAt_lexeme hgap hs, Place.through_of_not_tearsBreak hs.not_tearsBreak,
    Place.through_of_unbroken _ _ _ hgap', Place.through_of_unbroken _ _ _ hgap']

/-- The lexeme that ends where the rest begins stays as it is, and so do those in front of it, when
the rest is changed behind what has been seen of it. -/
theorem getElem?_lexemesAt_of_seen (ht : (lexemesAt p (front ++ (seen ++ more)))[i]? = some t)
    (hstop : t.span.stop = p.offset + utf8Len front) (hseen : seen ≠ [])
    (hdot : t.IsLoneDot → 2 ≤ seen.length) :
    (lexemesAt p (front ++ (seen ++ more')))[i]? = some t := by
  generalize hcs : front ++ (seen ++ more) = cs at ht
  induction cs using munch_induction generalizing p front i with
  | spaces cs h => simp [lexemesAt_spaces h] at ht
  | lexeme gap k s rest hgap hs ih =>
    rw [← List.append_assoc gap] at hcs
    rw [lexemesAt_longest hgap hs] at ht
    have hplace : (p.through (gap ++ s) []).offset = p.offset + utf8Len (gap ++ s) :=
      Place.offset_through p (gap ++ s) []
    cases i with
    | zero =>
      obtain rfl : Token.ofLexeme (p.through gap []) k s = t := by simpa using ht
      have hend : (p.through gap []).offset + utf8Len s = p.offset + utf8Len front := hstop
      rw [Place.offset_through, Nat.add_assoc, ← utf8Len_append] at hend
      obtain ⟨run, rfl, rfl⟩ := exists_of_utf8Len_le hcs (by omega)
      have hnil : run = [] := by
        rw [utf8Len_append _ run] at hend
        exact utf8Len_eq_zero.mp (by omega)
      subst hnil
      rw [List.nil_append] at hs
      have hs' : Longest k s (s ++ (seen ++ more')) := by
        refine hs.of_seen hseen fun hlone ↦ hdot ?_
        subst hlone
        exact isLoneDot_ofLexeme hs.isLexeme
      rw [List.append_nil, List.append_assoc, lexemesAt_longest hgap hs', List.getElem?_cons_zero]
    | succ i =>
      rw [List.getElem?_cons_succ] at ht
      have hlt := lt_stop_of_mem_lexemesAt (List.mem_of_getElem? ht)
      obtain ⟨run, rfl, rfl⟩ := exists_of_utf8Len_le hcs (by omega)
      have hrun : run ≠ [] := by
        intro hrun
        subst hrun
        simp [hplace, hstop] at hlt
      have hlen := List.length_pos_iff.mpr hrun
      have hs' : Longest k s (s ++ ((run ++ seen) ++ more')) := by
        rw [← List.append_assoc run] at hs
        refine hs.of_seen (by simp [hseen]) fun _ ↦ ?_
        have hpos := List.length_pos_iff.mpr hseen
        rw [List.length_append]
        omega
      rw [List.append_assoc] at hs'
      rw [List.append_assoc, List.append_assoc, lexemesAt_longest hgap hs', List.getElem?_cons_succ]
      refine ih ?_ rfl ht
      rw [hstop, hplace, utf8Len_append, Nat.add_assoc]

theorem between_front (h : source.toList = front ++ rest) :
    between source 0 (utf8Len front) = ofList front := by
  have hfront : between source (utf8Len []) (utf8Len [] + utf8Len front) = ofList front :=
    between_eq h
  rwa [utf8Len_nil, Nat.zero_add] at hfront

theorem getElem?_lexemesAt_iff {cs : List Char} :
    (lexemesAt p cs)[i]? = some t ↔ (tokensAt p cs)[i]? = some t ∧ t.kind ≠ .endOfInput := by
  rw [tokensAt_eq_lexemesAt]
  constructor
  · intro h
    obtain ⟨-, hend⟩ := List.mem_filter.mp (List.mem_of_getElem? h)
    obtain ⟨hi, -⟩ := List.getElem?_eq_some_iff.mp h
    exact ⟨by rwa [List.getElem?_append_left hi], by simpa [Token.isEnd] using hend⟩
  · intro h
    obtain ⟨h, hk⟩ := h
    rw [List.getElem?_append] at h
    split at h
    · exact h
    · have hend := List.mem_singleton.mp (List.mem_of_getElem? h)
      subst hend
      exact absurd rfl hk

theorem stopIndex_of_kind (ht : t ∈ tokens source) (hk : t.kind = .endOfInput) :
    t.stopIndex source = source.length := by
  rw [tokens_eq_tokensAt, tokensAt_eq_lexemesAt] at ht
  have hend : t = .ofLexeme (({} : Place).through source.toList []) .endOfInput [] := by
    refine (List.mem_append.mp ht).elim (fun h ↦ ?_) List.mem_singleton.mp
    have hnot := (List.mem_filter.mp h).2
    simp [Token.isEnd, hk] at hnot
  have hstop : t.span.stop = utf8Len source.toList := by
    have hoffset := Place.offset_through {} source.toList []
    rw [Nat.zero_add] at hoffset
    rw [hend]
    exact hoffset
  rw [Token.stopIndex, hstop, between_front (List.append_nil _).symm, ofList_toList]

theorem exists_stop (ht : t ∈ tokens source) (hk : t.kind ≠ .endOfInput) : ∃ front rest,
    source.toList = front ++ rest ∧ t.span.stop = utf8Len front ∧
      t.stopIndex source = front.length := by
  obtain ⟨front, s, rest, h⟩ := readsLexeme_of_mem ht hk
  have hsplit : source.toList = (front ++ s) ++ rest := by rw [List.append_assoc, h.split]
  refine ⟨front ++ s, rest, hsplit, h.standsFor.stop, ?_⟩
  rw [Token.stopIndex, h.standsFor.stop, between_front hsplit, length_ofList]

theorem exists_seen (hn : n ≤ source.length) (h : source.toList.take n = other.toList.take n)
    (hsource : source.toList = front ++ rest) (hfront : front.length ≤ n) : ∃ seen more more',
      source.toList = front ++ (seen ++ more) ∧ other.toList = front ++ (seen ++ more') ∧
        n = front.length + seen.length := by
  have htake : source.toList.take n = front ++ rest.take (n - front.length) := by
    rw [hsource, List.take_append, List.take_of_length_le hfront]
  refine ⟨rest.take (n - front.length), rest.drop (n - front.length), other.toList.drop n,
    ?_, ?_, ?_⟩
  · rw [List.take_append_drop, hsource]
  · rw [← List.append_assoc, ← htake, h, List.take_append_drop]
  · rw [← String.length_toList, hsource, List.length_append] at hn
    rw [List.length_take]
    omega

/-- Sources that agree on their first `n` characters have the same tokens as far as these settle
them: one character behind a token is enough, and two behind a dot that stands alone. -/
theorem tokens_bounded_lookahead (source other : String) (n : Nat) (hn : n ≤ source.length)
    (h : source.toList.take n = other.toList.take n) :
    ∀ (i : Nat) (t : Token), (tokens source)[i]? = some t →
      t.stopIndex source + 2 ≤ n ∨ ¬ t.IsLoneDot ∧ t.stopIndex source + 1 ≤ n →
        (tokens other)[i]? = some t := by
  intro i t ht hstop
  have hmem := List.mem_of_getElem? ht
  have hk : t.kind ≠ .endOfInput := by
    intro hk
    have hlast := stopIndex_of_kind hmem hk
    omega
  obtain ⟨front, rest, hsource, hend, hindex⟩ := exists_stop hmem hk
  obtain ⟨seen, more, more', hsource, hother, hlen⟩ := exists_seen hn h hsource (by omega)
  have hlexeme := getElem?_lexemesAt_iff.mpr ⟨ht, hk⟩
  rw [hsource] at hlexeme
  have hstop' : t.span.stop = ({} : Place).offset + utf8Len front := by rw [hend, Nat.zero_add]
  have hseen : seen ≠ [] := List.length_pos_iff.mp (by omega)
  have hdot : t.IsLoneDot → 2 ≤ seen.length := by
    intro hdot
    rcases hstop with hstop | ⟨hnot, -⟩
    · omega
    · exact absurd hdot hnot
  have hsame : (lexemesAt {} (front ++ (seen ++ more')))[i]? = some t :=
    getElem?_lexemesAt_of_seen hlexeme hstop' hseen hdot
  rw [← hother] at hsame
  exact (getElem?_lexemesAt_iff.mp hsame).1

/-- The minus sign behind the number is enough, though another character makes more of it. -/
theorem tokens_settled_by_minus :
    let source := "a\r\n 1.5-x"
    let other := "a\r\n 1.5->"
    let number : Token := ⟨.float, some "1.5", ⟨4, 7⟩, 2, 2⟩
    source.toList.take 8 = other.toList.take 8 ∧ (tokens source)[2]? = some number ∧
      (tokens other)[2]? = some number := by
  intro source other number
  have hagree : source.toList.take 8 = other.toList.take 8 := by decide
  have hnumber : (tokens source)[2]? = some number := by decide +kernel
  have hsettled : ¬ number.IsLoneDot ∧ number.stopIndex source + 1 ≤ 8 := by decide +kernel
  exact ⟨hagree, hnumber,
    tokens_bounded_lookahead source other 8 (by decide) hagree 2 number hnumber (.inr hsettled)⟩

end Lexemes
