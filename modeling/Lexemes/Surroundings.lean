namespace Lexemes

inductive FileFault
  | absent
  | notDirectory
  | nameTooLong
  | directory
  | notText
  | other (reason : String)
  deriving DecidableEq

def FileFault.message : FileFault → String
  | absent => "No such file or directory (os error 2)"
  | notDirectory => "Not a directory (os error 20)"
  | nameTooLong => "File name too long (os error 36)"
  | directory => "Is a directory (os error 21)"
  | notText => "stream did not contain valid UTF-8"
  | other reason => reason

/-- What a run takes from outside. Whether there is anything at a path is asked apart from what can
be read there, and how the reader of JSON complains of a text is for that reader to say. -/
structure Surroundings where
  lookup : String → Option String
  isThere : String → Bool
  contents : String → Except FileFault ByteArray
  complaint : String → String

def Surroundings.readText (w : Surroundings) (path : String) : Except FileFault String :=
  match w.contents path with
  | .error e => .error e
  | .ok bytes =>
    match String.fromUTF8? bytes with
    | some s => .ok s
    | none => .error .notText

end Lexemes
