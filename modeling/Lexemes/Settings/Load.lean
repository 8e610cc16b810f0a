import Lexemes.Failure
import Lexemes.Settings

namespace Lexemes.Settings

def pathVariable : String := "STORR_CONFIG"

def formatVariable : String := "STORR_FORMAT"

def defaultPath : String := "storr.json"

def path (w : Surroundings) : String :=
  (w.lookup pathVariable).getD defaultPath

/-- The settings of a file. Where there is nothing, the defaults hold. -/
def readFrom (w : Surroundings) (path : String) : Except Failure Settings :=
  if w.isThere path then
    match w.readText path with
    | .error fault => .error (.unreadable path fault)
    | .ok text =>
      match ofJson text with
      | .error _ => .error (.badSettings path (w.complaint text))
      | .ok s => .ok s
  else .ok {}

def load (w : Surroundings) : Except Failure Settings := do
  let s ← readFrom w (path w)
  match w.lookup formatVariable with
  | some value => pure (s.overrideFormat value)
  | none => pure s

end Lexemes.Settings
