import HandPath.Journal.Session
import HandPath.Launch.Outcome
import HandPath.Main
import HandPath.Proofs.Lexing
import HandPath.Proofs.Parting
import HandPath.Proofs.Numeral
import HandPath.Proofs.Marks
import HandPath.Proofs.Walks
import HandPath.Proofs.Grammar
import HandPath.Proofs.Group
import HandPath.Proofs.Traversal
import HandPath.Proofs.Precedence
import HandPath.Proofs.Failure
import HandPath.Proofs.Rounding
import HandPath.Proofs.Written
import HandPath.Proofs.WellFormed
import HandPath.Proofs.Canonical
import HandPath.Proofs.Concatenation
import HandPath.Proofs.Lookup
import HandPath.Proofs.Equality
import HandPath.Proofs.Truncation
import HandPath.Proofs.Cycles
import HandPath.Proofs.Agreement
import HandPath.Proofs.Spelling
import HandPath.Proofs.Sessions
import HandPath.Proofs.Layouts
import HandPath.Proofs.Juxtaposition
import HandPath.Proofs.OptionalMarks
import HandPath.Proofs.Nearest
import HandPath.Proofs.Reading
import HandPath.Proofs.Quoted
import HandPath.Proofs.Messages
import HandPath.Proofs.Rejections
import HandPath.Proofs.Tables
import HandPath.Proofs.WrittenGroups
import HandPath.Proofs.Arguments
