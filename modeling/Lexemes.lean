import Lexemes.Main
import Lexemes.Proofs.Lexeme
import Lexemes.Proofs.Longest
import Lexemes.Proofs.Munch
import Lexemes.Proofs.MaximalMunch
import Lexemes.Proofs.Lossless
import Lexemes.Proofs.Lines
import Lexemes.Proofs.Places
import Lexemes.Proofs.Printing
import Lexemes.Proofs.Cutting
import Lexemes.Proofs.Reports
import Lexemes.Proofs.RoundTrip
import Lexemes.Proofs.Calls
import Lexemes.Proofs.Options
import Lexemes.Proofs.PlainDump
import Lexemes.Proofs.Comments
import Lexemes.Proofs.Lookahead
import Lexemes.Proofs.Respacing
import Lexemes.Proofs.PositionDump
import Lexemes.Proofs.Truncation
import Lexemes.Proofs.ReportStream
import Lexemes.Proofs.Precedence
import Lexemes.Proofs.SettingsText
import Lexemes.Proofs.Arguments
import Lexemes.Proofs.Moves
