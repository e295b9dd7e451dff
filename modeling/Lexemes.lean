import Lexemes.Json.Reading
import Lexemes.Main
import Lexemes.Proofs.Places
import Lexemes.Proofs.Reprint
import Lexemes.Proofs.Steps
import Lexemes.Proofs.Tiling
import Lexemes.Proofs.Concatenation
import Lexemes.Proofs.Json.Numbers
import Lexemes.Proofs.Json.Tokens
import Lexemes.Proofs.Number.Rounding
import Lexemes.Proofs.Number.Shortest
import Lexemes.Proofs.Json.Doubles
import Lexemes.Proofs.Json.Survival
import Lexemes.Proofs.Leniency
import Lexemes.Proofs.Listing
import Lexemes.Proofs.Settled
import Lexemes.Proofs.Json.Lines
import Lexemes.Proofs.Failure
import Lexemes.Proofs.NumberRuns
import Lexemes.Proofs.Coherence
import Lexemes.Proofs.Looks
import Lexemes.Proofs.Draining
import Lexemes.Proofs.PlainLines
import Lexemes.Proofs.Values
import Lexemes.Proofs.Quoted
import Lexemes.Proofs.Messages
import Lexemes.Proofs.Reports
import Lexemes.Proofs.Flags
