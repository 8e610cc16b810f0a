import Lexemes.Proofs.Tokens
import Mathlib.Data.List.TakeWhile

namespace Lexemes

open String Text

end Lexemes
