import Lexemes.Proofs.PlainDump
import Mathlib.Data.List.DropRight

namespace Lexemes

open String Text

structure Row where
  line : Nat
  column : Nat
  kind : Kind
  text : List Char
  deriving DecidableEq

/-- A text that is absent counts as empty, and blanks at its end do not count. -/
def Token.row (t : Token) : Row :=
  ⟨t.line, t.column, t.kind, trimEnd t.item.chars⟩

def skipPadding (cs : List Char) : List Char :=
  cs.dropWhile (· == ' ')

def cutNumber (cs : List Char) : Nat × List Char :=
  (Nat.ofDigitChars 10 (cs.takeWhile Char.isDigit) 0, cs.dropWhile Char.isDigit)

def nameWidth : Nat := 17

def readRow (cs : List Char) : Option Row :=
  let line := cutNumber (skipPadding cs)
  let column := cutNumber line.2.tail
  let cells := skipPadding column.2
  (Kind.ofName? (ofList (cells.takeWhile Char.isAlpha))).map fun kind ↦
    ⟨line.1, column.1, kind, cells.drop nameWidth⟩

def Token.nameAndText (t : Token) : List Char :=
  trimEnd (padEnd nameWidth t.kind.name.toList ++ t.item.chars)

variable {t u : Token} {ts us : List Token} {s : Settings} {cs as bs rest : List Char} {n : Nat}

theorem trimEnd_append (as bs : List Char) :
    trimEnd (as ++ bs) = if trimEnd bs = [] then trimEnd as else as ++ trimEnd bs := by
  simp only [trimEnd, List.reverse_append, List.dropWhile_append, List.reverse_eq_nil_iff,
    List.isEmpty_iff]
  split
  · rfl
  · simp

theorem trimEnd_eq_nil (h : ∀ x ∈ cs, isBlank x) : trimEnd cs = [] :=
  List.rdropWhile_eq_nil_iff.mpr h

theorem trimEnd_eq_self (h : ∀ x ∈ cs.getLast?, isBlank x = false) : trimEnd cs = cs := by
  refine List.rdropWhile_eq_self_iff.mpr fun hne ↦ ?_
  simpa using h _ (List.getLast?_eq_getLast_of_ne_nil hne)

theorem mem_of_mem_trimEnd {x : Char} (h : x ∈ trimEnd cs) : x ∈ cs :=
  (List.rdropWhile_prefix isBlank cs).subset h

theorem skipPadding_append (hrest : ∀ x ∈ rest.head?, x ≠ ' ') :
    skipPadding (List.replicate n ' ' ++ rest) = rest :=
  dropWhile_run (by simp) (by simpa using hrest)

theorem toList_toString (n : Nat) : (toString n).toList = Nat.toDigits 10 n := by
  rw [Nat.toString_eq_repr, Nat.toList_repr]

theorem cutNumber_append (hrest : ∀ x ∈ rest.head?, x.isDigit = false) :
    cutNumber ((toString n).toList ++ rest) = (n, rest) := by
  have hdigits : ∀ x ∈ Nat.toDigits 10 n, x.isDigit := Json.Numeral.isDigit_toDigits
  rw [cutNumber, toList_toString, takeWhile_run hdigits hrest, dropWhile_run hdigits hrest,
    Nat.ofDigitChars_ten_toDigits]

theorem head_number : ∀ x ∈ ((toString n).toList ++ rest).head?, x.isDigit := by
  intro x hx
  rw [toList_toString, List.head?_append_of_ne_nil _ Nat.toDigits_ne_nil] at hx
  exact Json.Numeral.isDigit_toDigits x (List.mem_of_mem_head? hx)

theorem name_letters (k : Kind) : k.name.toList ≠ [] ∧ k.name.toList.length < nameWidth ∧
    ∀ x ∈ k.name.toList, x.isAlpha := by
  rw [← List.all_eq_true]
  cases k <;> decide

theorem startsWord_of_isAlpha {x : Char} (h : x.isAlpha) : Kind.startsWord x := by
  simp [Kind.startsWord, h]

theorem not_isDigit_of_isAlpha {x : Char} (h : x.isAlpha) : x.isDigit = false := by
  refine Bool.eq_false_iff.mpr fun hd ↦ ?_
  have hword := startsWord_bounds (startsWord_of_isAlpha h)
  have hdigit := isDigit_bounds hd
  omega

theorem trimEnd_name (k : Kind) (n : Nat) :
    trimEnd (k.name.toList ++ List.replicate n ' ') = k.name.toList := by
  obtain ⟨-, -, hletters⟩ := name_letters k
  have hpadding : trimEnd (List.replicate n ' ') = [] :=
    trimEnd_eq_nil fun x hx ↦ by rw [List.eq_of_mem_replicate hx]; decide
  rw [trimEnd_append, if_pos hpadding]
  refine trimEnd_eq_self fun x hx ↦ ?_
  exact isBlank_of_startsWord (startsWord_of_isAlpha (hletters x (List.mem_of_getLast? hx)))

theorem nameAndText_eq (t : Token) : t.nameAndText =
    if trimEnd t.item.chars = [] then t.kind.name.toList
    else Token.padEnd nameWidth t.kind.name.toList ++ trimEnd t.item.chars := by
  rw [Token.nameAndText, trimEnd_append, Token.padEnd, trimEnd_name]

theorem cut_nameAndText (t : Token) : t.nameAndText.takeWhile Char.isAlpha = t.kind.name.toList ∧
    t.nameAndText.drop nameWidth = trimEnd t.item.chars := by
  obtain ⟨-, hlen, hletters⟩ := name_letters t.kind
  rw [nameAndText_eq]
  split
  · next htext =>
    rw [htext]
    exact ⟨List.takeWhile_eq_self_iff.mpr hletters, List.drop_eq_nil_of_le hlen.le⟩
  · obtain ⟨n, hn⟩ : ∃ n, nameWidth - t.kind.name.toList.length = n + 1 :=
      ⟨_, (Nat.succ_pred (by omega)).symm⟩
    have hwidth : (Token.padEnd nameWidth t.kind.name.toList).length = nameWidth := by
      rw [Token.padEnd, List.length_append, List.length_replicate]
      omega
    refine ⟨?_, List.drop_left' hwidth⟩
    rw [Token.padEnd, hn, List.append_assoc]
    refine takeWhile_run hletters ?_
    rintro x ⟨⟩
    decide

theorem head_nameAndText (t : Token) : ∃ x rest, t.nameAndText = x :: rest ∧ x.isAlpha := by
  obtain ⟨hne, -, hletters⟩ := name_letters t.kind
  obtain ⟨x, name, hname⟩ := List.exists_cons_of_ne_nil hne
  have hx : x.isAlpha := hletters x (by simp [hname])
  rw [nameAndText_eq, Token.padEnd, hname]
  split
  · exact ⟨x, name, rfl, hx⟩
  · exact ⟨x, _, rfl, hx⟩

theorem head_padded (t : Token) (n : Nat) :
    ∀ x ∈ (List.replicate n ' ' ++ t.nameAndText).head?, x.isDigit = false := by
  obtain ⟨y, letters, hcells, hy⟩ := head_nameAndText t
  cases n with
  | zero =>
    rw [hcells]
    rintro x ⟨⟩
    exact not_isDigit_of_isAlpha hy
  | succ n =>
    rintro x ⟨⟩
    rfl

theorem positionLine_eq (t : Token) : t.positionLine =
    Token.padStart 4 (toString t.line).toList ++
      ':' :: (Token.padEnd 5 (toString t.column).toList ++ t.nameAndText) := by
  obtain ⟨x, rest, hcells, -⟩ := head_nameAndText t
  have hne : trimEnd (Token.padEnd nameWidth t.kind.name.toList ++ t.item.chars) ≠ [] := by
    rw [← Token.nameAndText, hcells]
    exact List.cons_ne_nil x rest
  have hline : t.positionLine = trimEnd ((Token.padStart 4 (toString t.line).toList ++
      ':' :: Token.padEnd 5 (toString t.column).toList) ++
        (Token.padEnd nameWidth t.kind.name.toList ++ t.item.chars)) := by
    rw [← List.append_assoc]
    rfl
  rw [hline, trimEnd_append, if_neg hne, List.append_assoc]
  rfl

theorem skipPadding_nameAndText (t : Token) (n : Nat) :
    skipPadding (List.replicate n ' ' ++ t.nameAndText) = t.nameAndText := by
  obtain ⟨y, letters, hcells, hy⟩ := head_nameAndText t
  refine skipPadding_append fun x hx ↦ ?_
  obtain rfl : y = x := by simpa [hcells] using hx
  intro hspace
  subst hspace
  exact absurd hy (by decide)

theorem readRow_positionLine (t : Token) : readRow t.positionLine = some t.row := by
  obtain ⟨hname, htext⟩ := cut_nameAndText t
  have hline : cutNumber (skipPadding t.positionLine) =
      (t.line, ':' :: (Token.padEnd 5 (toString t.column).toList ++ t.nameAndText)) := by
    rw [positionLine_eq, Token.padStart, List.append_assoc,
      skipPadding_append fun x hx ↦ Json.ne_of_isDigit (head_number x hx) (by decide)]
    refine cutNumber_append ?_
    rintro x ⟨⟩
    rfl
  have hcolumn : cutNumber (Token.padEnd 5 (toString t.column).toList ++ t.nameAndText) =
      (t.column, List.replicate (5 - (toString t.column).toList.length) ' ' ++ t.nameAndText) := by
    rw [Token.padEnd, List.append_assoc, cutNumber_append (head_padded t _)]
  have hkind : Kind.ofName? (ofList (t.nameAndText.takeWhile Char.isAlpha)) = some t.kind := by
    rw [hname, ofList_toList, Kind.ofName?_name]
  simp only [readRow, hline, List.tail_cons, hcolumn, skipPadding_nameAndText, hkind, htext,
    Option.map_some]
  rfl

theorem positionLine_inj : t.positionLine = u.positionLine ↔ t.row = u.row := by
  constructor
  · intro h
    have hread := readRow_positionLine t
    rw [h, readRow_positionLine u] at hread
    exact (Option.some.inj hread).symm
  · intro h
    obtain ⟨hline, hcolumn, hkind, htext⟩ := Row.mk.inj h
    rw [positionLine_eq, positionLine_eq, nameAndText_eq, nameAndText_eq, hline, hcolumn, hkind,
      htext]

theorem Token.OneLine.positionLine (h : t.OneLine) : '\n' ∉ t.positionLine := by
  obtain ⟨-, hname⟩ := name_unbroken t.kind
  have hnumber (n : Nat) : '\n' ∉ Nat.toDigits 10 n :=
    fun hmem ↦ absurd (Json.Numeral.isDigit_toDigits _ hmem) (by decide)
  intro hmem
  have hline := mem_of_mem_trimEnd hmem
  simp [Token.padStart, Token.padEnd, hname, hnumber] at hline
  exact h hline

theorem IsLexeme.last {k : Kind} (h : IsLexeme k cs) (hk : k ≠ .lineSeparator)
    (hsw : ¬ Swallows k cs) : ∀ x ∈ cs.getLast?, isBlank x = false := by
  obtain ⟨c, s, rfl⟩ := List.exists_cons_of_ne_nil h.ne_nil
  have hc := h.not_isBlank hk
  have hrun (hs : ∀ x ∈ s, isBlank x = false) : ∀ x ∈ (c :: s).getLast?, isBlank x = false := by
    intro x hx
    rcases List.mem_cons.mp (List.mem_of_getLast? hx) with rfl | hx
    · exact hc
    · exact hs x hx
  rw [isLexeme_cons_iff] at h
  cases hh : Head.of c <;> simp only [Completes, hh] at h
  case lineBreak => exact absurd h.1 hk
  case word =>
    refine hrun fun x hx ↦ Bool.eq_false_iff.mpr fun hb ↦ ?_
    simpa [continuesWord_blank hb] using h.2 x hx
  case digit =>
    refine hrun fun x hx ↦ Bool.eq_false_iff.mpr fun hb ↦ ?_
    simpa [continuesNumber_blank hb] using h.2 x hx
  case quote =>
    rcases h with ⟨-, body, rfl, -⟩ | ⟨rfl, -⟩
    · rw [← List.cons_append, List.getLast?_concat]
      rintro x ⟨⟩
      decide
    · obtain rfl : c = '"' := by simpa [hh, Head.Covers] using Head.covers_of c
      exact absurd (.inr ⟨rfl, rfl⟩) hsw
  case other =>
    rcases h with ⟨rfl, -⟩ | h | ⟨-, rfl, -⟩
    · exact absurd (.inl rfl) hsw
    · refine hrun fun x hx ↦ ?_
      have hall := List.all_eq_true.mp (operators_not_blank _ h) x (List.mem_cons_of_mem _ hx)
      simpa using hall
    · exact hrun (by simp)

theorem line_positions (hpos : s.positions = true) : s.line = Token.positionLine :=
  funext fun _ ↦ if_pos hpos

theorem unbroken_line (hpos : s.positions = true) (h : ∀ t ∈ ts, t.OneLine) :
    ∀ t ∈ s.shown ts, '\n' ∉ s.line t := by
  intro t ht
  rw [line_positions hpos]
  exact (h t (mem_of_mem_shown ht)).positionLine

theorem row_text_tokensAt {p : Place} : ∀ t ∈ tokensAt p cs,
    ¬ Swallows t.kind t.item.chars → t.row.text = t.item.chars := by
  induction cs using munch_induction generalizing p with
  | spaces cs h =>
    rw [tokensAt_spaces h, List.forall_mem_singleton]
    exact fun _ ↦ rfl
  | lexeme gap k s rest hgap hs ih =>
    rw [tokensAt_lexeme hgap hs, List.forall_mem_cons]
    refine ⟨fun hsw ↦ ?_, ih⟩
    by_cases hk : k = .lineSeparator
    · subst hk
      rfl
    · have hitem := item_ofLexeme (p := p.through gap (s ++ rest)) hk hs.isLexeme
      have hchars : (Token.ofLexeme (p.through gap (s ++ rest)) k s).item.chars = s := by
        simp [hitem, Item.chars]
      rw [hchars] at hsw
      rw [Token.row, hchars]
      exact trimEnd_eq_self (hs.isLexeme.last hk hsw)

/-- A dump with positions tells of each token where it begins, its kind and its text but for blanks
at the end. Of the tokens of a source only comments and strings left open have such blanks. -/
theorem dump_positions_invertible (s : Settings) (hs : s.format = .text)
    (hpos : s.positions = true) :
    (∀ source, ∀ t ∈ tokens source,
      t.OneLine ∧ (¬ Swallows t.kind t.item.chars → t.row.text = t.item.chars)) ∧
      (∀ ts : List Token, (∀ t ∈ ts, t.OneLine) →
        ∃ ls, (dump s ts).toList.splitOn '\n' = ls ++ [[]] ∧
          List.Forall₂ (fun t line ↦ readRow line = some t.row) (s.shown ts) ls) ∧
      ∀ ts us : List Token, (∀ t ∈ ts, t.OneLine) → (∀ t ∈ us, t.OneLine) →
        (dump s ts = dump s us ↔ (s.shown ts).map Token.row = (s.shown us).map Token.row) := by
  refine ⟨fun source t ht ↦ ⟨oneLine_tokensAt t ht, row_text_tokensAt t ht⟩, fun ts hts ↦ ?_,
    fun ts us hts hus ↦ ?_⟩
  · refine ⟨_, splitOn_dump hs (unbroken_line hpos hts), ?_⟩
    rw [line_positions hpos, List.forall₂_map_right_iff, List.forall₂_same]
    exact fun t _ ↦ readRow_positionLine t
  · rw [dump_text_inj hs (unbroken_line hpos hts) (unbroken_line hpos hus), line_positions hpos]
    simp only [map_eq_map_iff_forall₂, positionLine_inj]

/-- The numbers outgrow their columns, one text ends in blanks and another has nothing else. -/
theorem dump_positions_full_columns :
    let s : Settings := { positions := true, skipComments := true }
    let ts : List Token := [⟨.illegal, some " \"é\u3000 ", ⟨0, 9⟩, 12345, 1234567⟩,
      ⟨.comment, some "// not shown", ⟨3, 15⟩, 1, 4⟩, ⟨.string, some "\t", ⟨9, 10⟩, 0, 12345⟩]
    let us : List Token := [⟨.illegal, some " \"é", ⟨0, 4⟩, 12345, 1234567⟩,
      ⟨.string, none, ⟨0, 0⟩, 0, 12345⟩]
    dump s ts = dump s us ∧ ∃ ls, (dump s ts).toList.splitOn '\n' = ls ++ [[]] ∧
      List.Forall₂ (fun t line ↦ readRow line = some t.row) us ls := by
  intro s ts us
  obtain ⟨-, hread, hinj⟩ := dump_positions_invertible s rfl rfl
  have hsame : dump s ts = dump s us := (hinj ts us (by decide) (by decide)).mpr (by decide)
  rw [hsame]
  exact ⟨rfl, hread us (by decide)⟩

end Lexemes
