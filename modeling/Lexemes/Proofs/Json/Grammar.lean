import Lexemes.Proofs.Json.Reads

namespace Lexemes.Json

open Quoted (letters hexValue? isHighSurrogate isLowSurrogate)

inductive UnitText : List Char → ℕ → Prop
  | mk {a b c d : Char} {i j k l : ℕ} (ha : hexValue? a = some i) (hb : hexValue? b = some j)
      (hc : hexValue? c = some k) (hd : hexValue? d = some l) :
      UnitText [a, b, c, d] (((i * 16 + j) * 16 + k) * 16 + l)

/-- What the parts between two quotes are: a unit need not be a character. -/
inductive PieceText : List Char → Prop
  | plain {c : Char} (hq : c ≠ '"') (hb : c ≠ '\\') (hc : 0x20 ≤ c.toNat) : PieceText [c]
  | letter {x c : Char} (hx : letters.lookup x = some c) : PieceText ['\\', x]
  | unit {u : List Char} {n : ℕ} (hu : UnitText u n) : PieceText ('\\' :: 'u' :: u)

inductive StringText : List Char → Prop
  | nil : StringText []
  | cons {piece body : List Char} (hpiece : PieceText piece) (h : StringText body) :
      StringText (piece ++ body)

/-- The ways to spell a character. Surrogates come in pairs. -/
inductive CharText : List Char → Char → Prop
  | plain {c : Char} (hq : c ≠ '"') (hb : c ≠ '\\') (hc : 0x20 ≤ c.toNat) : CharText [c] c
  | letter {x c : Char} (hx : letters.lookup x = some c) : CharText ['\\', x] c
  | unit {u : List Char} {n : ℕ} (hu : UnitText u n) (hhigh : isHighSurrogate n = false)
      (hlow : isLowSurrogate n = false) : CharText ('\\' :: 'u' :: u) (Char.ofNat n)
  | pair {u v : List Char} {m n : ℕ} (hu : UnitText u m) (hv : UnitText v n)
      (hhigh : isHighSurrogate m) (hlow : isLowSurrogate n) :
      CharText ('\\' :: 'u' :: u ++ '\\' :: 'u' :: v)
        (Char.ofNat (0x10000 + (m - 0xD800) * 0x400 + (n - 0xDC00)))

/-- The characters that a text between two quotes spells. -/
inductive Spells : List Char → List Char → Prop
  | nil : Spells [] []
  | cons {piece body s : List Char} {c : Char} (hpiece : CharText piece c) (h : Spells body s) :
      Spells (piece ++ body) (c :: s)

structure DigitsText (ds : List Char) : Prop where
  some_digit : ds ≠ []
  isDigit : ∀ x ∈ ds, x.isDigit

inductive WholeText : List Char → Prop
  | mk {c : Char} {cs : List Char} (hc : c.isDigit) (hcs : ∀ x ∈ cs, x.isDigit)
      (hzero : c = '0' → cs = []) : WholeText (c :: cs)

inductive FractionText : List Char → Prop
  | absent : FractionText []
  | digits {ds : List Char} (h : DigitsText ds) : FractionText ('.' :: ds)

inductive ExponentText : List Char → Prop
  | absent : ExponentText []
  | digits {e : Char} {sign ds : List Char} (he : e = 'e' ∨ e = 'E')
      (hsign : sign = [] ∨ sign = ['+'] ∨ sign = ['-']) (h : DigitsText ds) :
      ExponentText (e :: (sign ++ ds))

inductive NumberText : List Char → Prop
  | mk {sign whole fraction exponent : List Char} (hsign : sign = [] ∨ sign = ['-'])
      (hwhole : WholeText whole) (hfraction : FractionText fraction)
      (hexponent : ExponentText exponent) :
      NumberText (sign ++ (whole ++ (fraction ++ exponent)))

structure Padded where
  front : List Char
  text : List Char
  back : List Char
  gap_front : Gap front
  gap_back : Gap back

def Padded.whole (p : Padded) : List Char :=
  p.front ++ (p.text ++ p.back)

def quoted (body : List Char) : List Char :=
  '"' :: (body ++ ['"'])

/-- A part of an object. The text of its key is what stands between the quotes. -/
structure Member where
  key : Padded
  value : Padded
  isKey : StringText key.text

namespace Member

def tail (m : Member) : List Char :=
  m.key.back ++ ':' :: m.value.whole

def whole (m : Member) : List Char :=
  m.key.front ++ (quoted m.key.text ++ m.tail)

def tight (key value : List Char) (h : StringText key) : Member :=
  ⟨⟨[], key, [], gap_nil, gap_nil⟩, ⟨[], value, [], gap_nil, gap_nil⟩, h⟩

def Names (m : Member) (name : String) : Prop :=
  Spells m.key.text name.toList

end Member

/-- The parts of a list or an object with commas between them. Where there are none, there may be a
gap. -/
def joined (gap : List Char) : List (List Char) → List Char
  | [] => gap
  | part :: parts => part ++ parts.flatMap (',' :: ·)

def furtherMembers (ms : List Member) : List Char :=
  (ms.map Member.whole).flatMap (',' :: ·)

inductive ValueText : List Char → Prop
  | null : ValueText ['n', 'u', 'l', 'l']
  | boolean (b : Bool) : ValueText (toString b).toList
  | number {cs : List Char} (h : NumberText cs) : ValueText cs
  | string {body : List Char} (h : StringText body) : ValueText (quoted body)
  | list {gap : List Char} {items : List Padded} (hgap : Gap gap)
      (h : ∀ i ∈ items, ValueText i.text) :
      ValueText ('[' :: (joined gap (items.map Padded.whole) ++ [']']))
  | object {gap : List Char} {members : List Member} (hgap : Gap gap)
      (h : ∀ m ∈ members, ValueText m.value.text) :
      ValueText ('{' :: (joined gap (members.map Member.whole) ++ ['}']))

inductive ObjectText (ms : List Member) : List Char → Prop
  | mk {front gap back : List Char} (hfront : Gap front) (hgap : Gap gap) (hback : Gap back)
      (h : ∀ m ∈ ms, ValueText m.value.text) :
      ObjectText ms (front ++ '{' :: (joined gap (ms.map Member.whole) ++ '}' :: back))

variable {c : Char} {cs v gap rest : List Char}

theorem ObjectText.valueText {ms : List Member} (h : ObjectText ms cs) :
    ∀ m ∈ ms, ValueText m.value.text := by
  obtain ⟨-, -, -, hvalues⟩ := h
  exact hvalues

theorem joined_singleton {part : List Char} : joined gap [part] = part :=
  List.append_nil part

theorem ValueText.keyed {m : Member} (h : ValueText m.value.text) :
    ValueText ('{' :: (m.whole ++ ['}'])) := by
  have hobject := ValueText.object gap_nil (List.forall_mem_singleton.mpr h)
  rwa [List.map_singleton, joined_singleton] at hobject

theorem quoted_append {body : List Char} : quoted body ++ rest = '"' :: (body ++ '"' :: rest) := by
  simp [quoted]

theorem Padded.whole_append {p : Padded} :
    p.whole ++ rest = p.front ++ (p.text ++ (p.back ++ rest)) := by
  simp [Padded.whole]

theorem Member.whole_append {m : Member} : m.whole ++ rest = m.key.front ++
    '"' :: (m.key.text ++ '"' :: (m.key.back ++ ':' :: (m.value.whole ++ rest))) := by
  simp [Member.whole, Member.tail, quoted]

theorem joined_cons {m : Member} {ms : List Member} :
    joined gap ((m :: ms).map Member.whole) ++ '}' :: rest =
      m.whole ++ (furtherMembers ms ++ '}' :: rest) := by
  simp [joined, furtherMembers]

theorem furtherMembers_cons {m : Member} {ms : List Member} :
    furtherMembers (m :: ms) ++ '}' :: rest =
      ',' :: (m.whole ++ (furtherMembers ms ++ '}' :: rest)) := by
  simp [furtherMembers]

theorem CharText.ne_nil (h : CharText cs c) : cs ≠ [] := by
  cases h <;> exact List.cons_ne_nil _ _

theorem NumberText.opens (h : NumberText cs) :
    ∃ c tail, cs = c :: tail ∧ (c = '-' ∨ c.isDigit) := by
  obtain ⟨hsign, hwhole, -, -⟩ := h
  obtain ⟨hc, -, -⟩ := hwhole
  rcases hsign with rfl | rfl
  · exact ⟨_, _, rfl, .inr hc⟩
  · exact ⟨_, _, rfl, .inl rfl⟩

theorem ne_of_opens_number {d : Char} (h : c = '-' ∨ c.isDigit) (hsign : '-' ≠ d)
    (hd : d.isDigit = false) : c ≠ d := by
  rcases h with rfl | h
  · exact hsign
  · exact ne_of_isDigit h hd

theorem isGap_of_opens_number (h : c = '-' ∨ c.isDigit) : Reader.isGap c = false := by
  rcases h with rfl | h
  · rfl
  · exact isGap_of_isDigit h

theorem ValueText.opens (h : ValueText v) : ∃ c tail, v = c :: tail ∧ Reader.isGap c = false ∧
    c ≠ ']' ∧ (v = ['n', 'u', 'l', 'l'] ∨ c ≠ 'n') ∧
    ((∃ b : Bool, v = (toString b).toList) ∨ c ≠ 't' ∧ c ≠ 'f') := by
  cases h with
  | null => exact ⟨'n', _, rfl, rfl, by decide, .inl rfl, .inr (by decide)⟩
  | boolean b =>
    cases b with
    | false => exact ⟨'f', _, rfl, rfl, by decide, .inr (by decide), .inl ⟨false, rfl⟩⟩
    | true => exact ⟨'t', _, rfl, rfl, by decide, .inr (by decide), .inl ⟨true, rfl⟩⟩
  | number h =>
    obtain ⟨c, tail, rfl, hc⟩ := h.opens
    have hne {d : Char} : '-' ≠ d → d.isDigit = false → c ≠ d := ne_of_opens_number hc
    exact ⟨c, tail, rfl, isGap_of_opens_number hc, hne (by decide) rfl, .inr (hne (by decide) rfl),
      .inr ⟨hne (by decide) rfl, hne (by decide) rfl⟩⟩
  | string => exact ⟨'"', _, rfl, rfl, by decide, .inr (by decide), .inr (by decide)⟩
  | list => exact ⟨'[', _, rfl, rfl, by decide, .inr (by decide), .inr (by decide)⟩
  | object => exact ⟨'{', _, rfl, rfl, by decide, .inr (by decide), .inr (by decide)⟩

end Lexemes.Json
