import Lexemes.Settings

namespace Lexemes

structure Options where
  format : Option DumpFormat := none
  positions : Bool := false
  skipComments : Bool := false
  strict : Bool := false
  deriving DecidableEq, Repr

/-- A format replaces the one of the settings; a switch can only turn something on. -/
def Settings.apply (s : Settings) (o : Options) : Settings where
  format := o.format.getD s.format
  positions := s.positions || o.positions
  skipComments := s.skipComments || o.skipComments
  strict := s.strict || o.strict

inductive Command
  | help
  | version
  | dump (file : String) (options : Options)
  deriving DecidableEq, Repr

inductive UsageFault
  | unknownOption (argument : String)
  | uncalledForValue (option : String)
  | missingValue (option : String)
  | unknownFormat (value : String)
  | repeated (option : String)
  | emptyFile
  | secondFile (argument : String)
  | missingFile
  deriving DecidableEq, Repr

def UsageFault.message : UsageFault → String
  | unknownOption argument => "error: unexpected argument '" ++ argument ++ "' found"
  | uncalledForValue option => "error: '--" ++ option ++ "' takes no value"
  | missingValue option => "error: '--" ++ option ++ "' needs a value"
  | unknownFormat value => "error: '" ++ value ++ "' is no format: text, json"
  | repeated option => "error: '--" ++ option ++ "' is given more than once"
  | emptyFile => "error: <FILE> is empty"
  | secondFile argument => "error: unexpected argument '" ++ argument ++ "' found"
  | missingFile => "error: <FILE> is missing"

namespace CommandLine

/-- An argument by its form. A dash alone is a file. -/
inductive Argument
  | file (path : String)
  /-- Short options may share a dash; the first of them counts. -/
  | short (letter : Char)
  | long (name : String) (value : Option String)
  /-- Two dashes: every argument behind them is a file. -/
  | onlyFiles
  deriving DecidableEq

def Argument.ofString (s : String) : Argument :=
  match s.toList with
  | ['-', '-'] => onlyFiles
  | '-' :: '-' :: cs =>
    let name := String.ofList (cs.takeWhile (· != '='))
    match cs.dropWhile (· != '=') with
    | [] => long name none
    | _ :: value => long name (some (String.ofList value))
  | '-' :: letter :: _ => short letter
  | _ => file s

structure Draft where
  file : Option String := none
  options : Options := {}

namespace Draft

def addFile (d : Draft) (path : String) : Except UsageFault Draft :=
  if d.file.isSome then .error (.secondFile path)
  else if path = "" then .error .emptyFile
  else .ok { d with file := some path }

def addFormat (d : Draft) (value : String) : Except UsageFault Draft :=
  match DumpFormat.ofName? value with
  | none => .error (.unknownFormat value)
  | some format =>
    if d.options.format.isSome then .error (.repeated "format")
    else .ok { d with options.format := some format }

def switchOn (d : Draft) (name : String) : Except UsageFault Draft :=
  match name with
  | "positions" =>
    if d.options.positions then .error (.repeated name)
    else .ok { d with options.positions := true }
  | "skip-comments" =>
    if d.options.skipComments then .error (.repeated name)
    else .ok { d with options.skipComments := true }
  | "strict" =>
    if d.options.strict then .error (.repeated name)
    else .ok { d with options.strict := true }
  | _ => .error (.unknownOption ("--" ++ name))

def finish (d : Draft) : Except UsageFault Command :=
  match d.file with
  | some file => .ok (.dump file d.options)
  | none => .error .missingFile

end Draft

def readFrom (d : Draft) : List String → Except UsageFault Command
  | [] => d.finish
  | arg :: args =>
    match Argument.ofString arg with
    | .file path => do readFrom (← d.addFile path) args
    | .onlyFiles => do (← args.foldlM Draft.addFile d).finish
    | .short 'h' => .ok .help
    | .short 'V' => .ok .version
    | .short _ => .error (.unknownOption arg)
    | .long "help" none => .ok .help
    | .long "version" none => .ok .version
    | .long "format" (some value) => do readFrom (← d.addFormat value) args
    | .long "format" none =>
      match args with
      | [] => .error (.missingValue "format")
      | value :: args => do readFrom (← d.addFormat value) args
    | .long name none => do readFrom (← d.switchOn name) args
    | .long name (some _) => .error (.uncalledForValue name)

def read (args : List String) : Except UsageFault Command :=
  readFrom {} args

def usage : String :=
  "Usage: storr [OPTIONS] <FILE>\n"

def help : String :=
  "Storr lexer: prints the tokens of a source file\n\n" ++ usage ++
    String.join ([
      "",
      "Arguments:",
      "  <FILE>  Source file to scan",
      "",
      "Options:",
      "      --format <FORMAT>  Output format (overrides the config file and STORR_FORMAT)"
        ++ " [possible values: text, json]",
      "      --positions        Prefix each token with its line and column",
      "      --skip-comments    Leave comment tokens out of the dump",
      "      --strict           Exit with status 1 when the source contains illegal tokens",
      "  -h, --help             Print help",
      "  -V, --version          Print version"].map (· ++ "\n"))

def version : String :=
  "storr 0.1.0\n"

end CommandLine

end Lexemes
