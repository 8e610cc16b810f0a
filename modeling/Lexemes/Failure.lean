import Lexemes.Surroundings

namespace Lexemes

inductive Failure
  | unreadable (path : String) (fault : FileFault)
  | badSettings (path complaint : String)
  | unwritable (complaint : String)
  | illegalTokens (count : Nat)
  deriving DecidableEq

namespace Failure

def cause? : Failure → Option String
  | unreadable _ fault => some fault.message
  | badSettings _ complaint | unwritable complaint => some complaint
  | illegalTokens _ => none

def message : Failure → String
  | unreadable path fault => "IOError: cannot read " ++ path ++ ": " ++ fault.message
  | badSettings path complaint => "ConfigError: invalid config " ++ path ++ ": " ++ complaint
  | unwritable complaint => "SerializeError: " ++ complaint
  | illegalTokens count => "LexingError: " ++ toString count ++ " illegal token(s) found"

end Failure

end Lexemes
