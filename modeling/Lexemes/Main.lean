import Lexemes.Run

namespace Lexemes.Main

/-- Some calls give the number of an error with a minus sign. -/
def errorNumber (code : UInt32) : Nat :=
  code.toInt32.toInt.natAbs

def numbered (details : String) (code : UInt32) : FileFault :=
  .other (details.capitalize ++ " (os error " ++ toString (errorNumber code) ++ ")")

def faultOf : IO.Error → FileFault
  | .noFileOrDirectory .. => .absent
  | .inappropriateType _ code _ => if errorNumber code = 20 then .notDirectory else .directory
  | .invalidArgument _ code details =>
    if errorNumber code = 36 then .nameTooLong else numbered details code
  | .permissionDenied _ code details => numbered details code
  | e => .other (toString e)

/-- What leads nowhere has no absolute path. -/
def isThere (path : String) : IO Bool := do
  match ← (IO.FS.realPath path).toBaseIO with
  | .ok _ => pure true
  | .error _ => pure false

def readFile (path : String) : IO (Except FileFault ByteArray) := do
  match ← (IO.FS.readBinFile path).toBaseIO with
  | .ok bytes => pure (.ok bytes)
  | .error e => pure (.error (faultOf e))

def nowhere : Surroundings where
  lookup := fun _ ↦ none
  isThere := fun _ ↦ false
  contents := fun _ ↦ .error .absent
  complaint := Settings.complaint

def environment : IO (String → Option String) := do
  let path ← IO.getEnv Settings.pathVariable
  let format ← IO.getEnv Settings.formatVariable
  pure fun name ↦
    if name = Settings.pathVariable then path
    else if name = Settings.formatVariable then format
    else none

def surroundings (source : String) : IO Surroundings := do
  let lookup ← environment
  let path := Settings.path { nowhere with lookup := lookup }
  let found ← isThere path
  let settings ← readFile path
  let contents ← readFile source
  pure { nowhere with
    lookup := lookup
    isThere := fun p ↦ p = path && found
    contents := fun p ↦
      if p = path then settings else if p = source then contents else .error .absent }

end Lexemes.Main

def main (args : List String) : IO UInt32 := do
  let w ←
    match Lexemes.CommandLine.read args with
    | .ok (.dump source _) => Lexemes.Main.surroundings source
    | _ => pure Lexemes.Main.nowhere
  let outcome := Lexemes.run w args
  let output ← IO.getStdout
  output.putStr outcome.output
  output.flush
  (← IO.getStderr).putStr outcome.errors
  pure outcome.status.toUInt32
