import Lexemes.Json.Ignored

namespace Lexemes.Json

open Reader

variable {α σ : Type}

structure RecordField (σ : Type) where
  name : String
  isSet : σ → Bool
  read : σ → Reader σ

structure Record (σ α : Type) where
  expected : String
  fields : List (RecordField σ)
  blank : σ
  /-- The fault of a list that ends after so many fields, if it is one. -/
  short? : Nat → Option Flaw
  finish : σ → Except Flaw α

namespace Record

/-- A repeated field is found behind its key, and behind a brace that comes next. -/
def repeated (name : String) : Reader σ := do
  match ← peek with
  | some '}' =>
    skip
    fail (.repeatedField name)
  | _ => fail (.repeatedField name)

/-- A known key is looked at before its value is read, an unknown one has any value. -/
def entry (r : Record σ α) (s : σ) (key : String) : Reader σ :=
  match r.fields.find? fun f ↦ f.name == key with
  | some f =>
    if f.isSet s then repeated f.name
    else do
      colon
      f.read s
  | none => do
    colon
    ignored
    pure s

def member (r : Record σ α) (s : σ) : Reader σ := do
  let c ← takeNext (.unfinished .value)
  if c = '"' then
    let key ← Quoted.text
    r.entry s key
  else refuse c .keyExpected

def memberTurn (r : Record σ α) (s : σ) : Reader (Turn σ σ) := do
  let c ← takeNext (.unfinished .object)
  if c = '}' then pure (.done s)
  else if c = ',' then
    match ← peek with
    | some '}' =>
      skip
      fail .trailingComma
    | _ =>
      let s ← r.member s
      pure (.again s)
  else refuse c .objectSeparatorExpected

theorem takes_memberTurn (r : Record σ α) (s : σ) : (r.memberTurn s).Takes :=
  takes_bind (takes_takeNext _)

def object (r : Record σ α) : Reader σ := do
  match ← peek with
  | none => fail (.unfinished .object)
  | some '}' =>
    skip
    pure r.blank
  | some _ =>
    let s ← r.member r.blank
    loop r.memberTurn r.takes_memberTurn s

def listEnd : Reader Unit := do
  let c ← takeNext (.unfinished .list)
  if c = ']' then pure ()
  else if c = ',' then
    match ← peek with
    | some ']' =>
      skip
      fail .trailingComma
    | some d =>
      skip
      refuse d .trailingCharacters
    | none => fail .trailingCharacters
  else refuse c .trailingCharacters

def nextField (isFirst : Bool) : Reader Bool := do
  match ← peek with
  | none => fail (.unfinished .list)
  | some ']' =>
    skip
    pure false
  | some c =>
    if isFirst then pure true
    else if c = ',' then
      skip
      match ← peek with
      | none => fail (.unfinished .value)
      | some ']' =>
        skip
        fail .trailingComma
      | some _ => pure true
    else
      skip
      refuse c .listSeparatorExpected

def listFrom (r : Record σ α) : Nat → List (RecordField σ) → σ → Reader σ
  | _, [], s => do
    listEnd
    pure s
  | n, f :: fs, s => do
    if ← nextField (n == 0) then
      let s ← f.read s
      r.listFrom (n + 1) fs s
    else
      match r.short? n with
      | some e => fail e
      | none => pure s

def read (r : Record σ α) : Reader α := do
  match ← head with
  | .object =>
    let s ← r.object
    ofExcept (r.finish s)
  | .list =>
    let s ← r.listFrom 0 r.fields r.blank
    ofExcept (r.finish s)
  | found => mismatch found r.expected

end Record

end Lexemes.Json
