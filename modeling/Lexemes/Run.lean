import Lexemes.CommandLine
import Lexemes.Dump
import Lexemes.Report
import Lexemes.Scan
import Lexemes.Settings.Load

namespace Lexemes

structure Outcome where
  status : Nat
  output : String
  errors : String
  deriving DecidableEq

namespace Outcome

def ofFailure (f : Failure) : Outcome :=
  ⟨1, "", f.message ++ "\n"⟩

def ofUsageFault (f : UsageFault) : Outcome :=
  ⟨1, "", f.message ++ "\n\n" ++ CommandLine.usage⟩

def ofSource (s : Settings) (path source : String) : Outcome :=
  let ts := tokens source
  let reports := Report.ofTokens path ts
  let errors := String.join (reports.map Report.display)
  if s.strict && !reports.isEmpty then
    ⟨1, dump s ts, errors ++ (Failure.illegalTokens reports.length).message ++ "\n"⟩
  else ⟨0, dump s ts, errors⟩

end Outcome

def Surroundings.source (w : Surroundings) (path : String) : Except Failure String :=
  (w.readText path).mapError (.unreadable path)

/-- The settings are loaded before the source is read, so their failure comes first. -/
def dumpFile (w : Surroundings) (path : String) (o : Options) : Outcome :=
  match Settings.load w with
  | .error f => .ofFailure f
  | .ok s =>
    match w.source path with
    | .error f => .ofFailure f
    | .ok source => .ofSource (s.apply o) path source

def Command.run (w : Surroundings) : Command → Outcome
  | help => ⟨0, CommandLine.help, ""⟩
  | version => ⟨0, CommandLine.version, ""⟩
  | dump path o => dumpFile w path o

def run (w : Surroundings) (args : List String) : Outcome :=
  match CommandLine.read args with
  | .error f => .ofUsageFault f
  | .ok c => c.run w

end Lexemes
