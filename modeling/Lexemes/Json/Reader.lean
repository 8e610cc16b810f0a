import Lexemes.Json.Fault

namespace Lexemes.Json

def byteSize (cs : List Char) : Nat :=
  cs.foldr (fun c n ↦ c.utf8Size + n) 0

/-- Why a reader stops, and how many bytes it leaves of the text. -/
structure Stop where
  flaw : Flaw
  left : Nat
  deriving DecidableEq

def Stop.toFault (s : Stop) (text : String) : Fault :=
  let bytes := text.toUTF8.data.toList
  ⟨s.flaw, some (.behind (bytes.take (bytes.length - s.left)))⟩

example : (Stop.toFault ⟨.trailingComma, 2⟩ "[1,\n  \"é\",]\n").position = some ⟨2, 7⟩ := by
  decide +kernel

structure Reader (α : Type) where
  run : List Char → Except Stop (α × List Char)
  suffix : ∀ {cs : List Char} {a : α} {rest : List Char}, run cs = .ok (a, rest) → rest <:+ cs

namespace Reader

variable {α β σ : Type}

instance : Monad Reader where
  pure a := ⟨fun cs ↦ .ok (a, cs), by rintro _ _ _ ⟨⟩; exact List.suffix_refl _⟩
  bind r f := {
    run := fun cs ↦
      match r.run cs with
      | .error e => .error e
      | .ok (a, rest) => (f a).run rest
    suffix := by
      intro cs b rest h
      split at h
      · cases h
      · next a mid hr => exact ((f a).suffix h).trans (r.suffix hr) }

@[simp]
theorem run_pure (a : α) (cs : List Char) : (pure a : Reader α).run cs = .ok (a, cs) :=
  rfl

theorem run_bind (r : Reader α) (f : α → Reader β) (cs : List Char) :
    (r >>= f).run cs =
      match r.run cs with
      | .error e => .error e
      | .ok (a, rest) => (f a).run rest :=
  rfl

theorem run_bind_ok {r : Reader α} {f : α → Reader β} {cs rest : List Char} {a : α}
    (h : r.run cs = .ok (a, rest)) : (r >>= f).run cs = (f a).run rest := by
  rw [run_bind, h]

/-- Of what has been taken, the last `uncounted` bytes are left. -/
def stop (uncounted : Nat) (e : Flaw) : Reader α :=
  ⟨fun cs ↦ .error ⟨e, byteSize cs + uncounted⟩, by rintro _ _ _ ⟨⟩⟩

def fail (e : Flaw) : Reader α :=
  stop 0 e

/-- The character `c`, which has been taken, is wrong here. Only its first byte counts. -/
def refuse (c : Char) (e : Flaw) : Reader α :=
  stop (c.utf8Size - 1) e

@[simp]
theorem run_refuse (c : Char) (e : Flaw) (cs : List Char) :
    (refuse c e : Reader α).run cs = .error ⟨e, byteSize cs + (c.utf8Size - 1)⟩ :=
  rfl

def ofExcept : Except Flaw α → Reader α
  | .ok a => pure a
  | .error e => fail e

def look : Reader (Option Char) :=
  ⟨fun cs ↦ .ok (cs.head?, cs), by rintro _ _ _ ⟨⟩; exact List.suffix_refl _⟩

/-- The next character; at the end of the text `cut` is wrong. -/
def take (cut : Flaw) : Reader Char where
  run
    | [] => .error ⟨cut, 0⟩
    | c :: cs => .ok (c, cs)
  suffix := by
    intro cs a rest h
    split at h
    · cases h
    · cases h
      exact List.suffix_cons _ _

theorem run_take (cut : Flaw) (c : Char) (cs : List Char) :
    (take cut).run (c :: cs) = .ok (c, cs) :=
  rfl

def takeWhile (p : Char → Bool) : Reader (List Char) :=
  ⟨fun cs ↦ .ok (cs.takeWhile p, cs.dropWhile p), by
    rintro _ _ _ ⟨⟩; exact List.dropWhile_suffix p⟩

def isGap (c : Char) : Bool :=
  c == ' ' || c == '\t' || c == '\n' || c == '\r'

def peek : Reader (Option Char) := do
  let _ ← takeWhile isGap
  look

def skip : Reader Unit :=
  ⟨fun cs ↦ .ok ((), cs.tail), by rintro _ _ _ ⟨⟩; exact List.tail_suffix _⟩

def takeNext (cut : Flaw) : Reader Char := do
  let _ ← takeWhile isGap
  take cut

def Takes (r : Reader α) : Prop :=
  ∀ {cs : List Char} {a : α} {rest : List Char}, r.run cs = .ok (a, rest) → rest.length < cs.length

theorem takes_bind {r : Reader α} {f : α → Reader β} (h : r.Takes) : (r >>= f).Takes := by
  intro cs b rest hb
  rw [run_bind] at hb
  split at hb
  · cases hb
  · next a mid hr => exact Nat.lt_of_le_of_lt ((f a).suffix hb).length_le (h hr)

theorem takes_bind_right {r : Reader α} {f : α → Reader β} (h : ∀ a, (f a).Takes) :
    (r >>= f).Takes := by
  intro cs b rest hb
  rw [run_bind] at hb
  split at hb
  · cases hb
  · next a mid hr => exact Nat.lt_of_lt_of_le (h a hb) (r.suffix hr).length_le

theorem takes_take (cut : Flaw) : (take cut).Takes := by
  intro cs a rest h
  cases cs with
  | nil => cases h
  | cons c cs =>
    cases h
    exact Nat.lt_succ_self _

theorem takes_takeNext (cut : Flaw) : (takeNext cut).Takes :=
  takes_bind_right fun _ ↦ takes_take cut

inductive Turn (σ α : Type)
  | again (s : σ)
  | done (a : α)

def loopRun (turn : σ → Reader (Turn σ α)) (h : ∀ s, (turn s).Takes) (s : σ) (cs : List Char) :
    Except Stop (α × List Char) :=
  match hr : (turn s).run cs with
  | .error e => .error e
  | .ok (.done a, rest) => .ok (a, rest)
  | .ok (.again s, rest) =>
    have := h _ hr
    loopRun turn h s rest
termination_by cs.length

theorem suffix_loopRun {turn : σ → Reader (Turn σ α)} {h : ∀ s, (turn s).Takes} {s : σ}
    {cs : List Char} {a : α} {rest : List Char} (hr : loopRun turn h s cs = .ok (a, rest)) :
    rest <:+ cs := by
  fun_induction loopRun turn h s cs with
  | case1 => cases hr
  | case2 s cs b mid hb =>
    cases hr
    exact (turn s).suffix hb
  | case3 s cs s' mid hm _ ih => exact (ih hr).trans ((turn s).suffix hm)

def loop (turn : σ → Reader (Turn σ α)) (h : ∀ s, (turn s).Takes) (s : σ) : Reader α :=
  ⟨loopRun turn h s, suffix_loopRun⟩

theorem run_loop (turn : σ → Reader (Turn σ α)) (h : ∀ s, (turn s).Takes) (s : σ)
    (cs : List Char) :
    (loop turn h s).run cs =
      match (turn s).run cs with
      | .error e => .error e
      | .ok (.done a, rest) => .ok (a, rest)
      | .ok (.again s, rest) => (loop turn h s).run rest := by
  change loopRun turn h s cs = _
  rw [loopRun]
  split <;> simp_all [loop]

theorem run_loop_again {turn : σ → Reader (Turn σ α)} {ht : ∀ s, (turn s).Takes} {s t : σ}
    {cs rest : List Char} (h : (turn s).run cs = .ok (.again t, rest)) :
    (loop turn ht s).run cs = (loop turn ht t).run rest := by
  rw [run_loop, h]

theorem run_loop_done {turn : σ → Reader (Turn σ α)} {ht : ∀ s, (turn s).Takes} {s : σ}
    {cs rest : List Char} {a : α} (h : (turn s).run cs = .ok (.done a, rest)) :
    (loop turn ht s).run cs = .ok (a, rest) := by
  rw [run_loop, h]

/-- A fault behind the value lies in the first byte that belongs to no gap. -/
def readAll (r : Reader α) (text : String) : Except Fault α :=
  match r.run text.toList with
  | .error s => .error (s.toFault text)
  | .ok (a, rest) =>
    if rest.all isGap then .ok a
    else
      let stray : Stop := ⟨.trailingCharacters, byteSize (rest.dropWhile isGap) - 1⟩
      .error (stray.toFault text)

end Reader

end Lexemes.Json
