import Songsheet.Disk
import Songsheet.Json.Note
import Songsheet.Main
import Songsheet.Proofs.Directive.Comment
import Songsheet.Proofs.Document.Attributes
import Songsheet.Proofs.Document.Comment
import Songsheet.Proofs.Document.Cycle
import Songsheet.Proofs.Document.Depth
import Songsheet.Proofs.Document.Expressibility
import Songsheet.Proofs.Document.FailFast
import Songsheet.Proofs.Document.Integrity
import Songsheet.Proofs.Document.Language
import Songsheet.Proofs.Document.Layout
import Songsheet.Proofs.Document.LetterCase
import Songsheet.Proofs.Document.Limit
import Songsheet.Proofs.Document.Places
import Songsheet.Proofs.Document.Relocation
import Songsheet.Proofs.Document.Respelling
import Songsheet.Proofs.Document.Termination
import Songsheet.Proofs.Label.History
import Songsheet.Proofs.Library.History
import Songsheet.Proofs.Note.Comment
import Songsheet.Proofs.Note.Duration
import Songsheet.Proofs.Note.Grammar
import Songsheet.Proofs.Note.Loop
import Songsheet.Proofs.Note.Word
import Songsheet.Proofs.Pitch
import Songsheet.Proofs.QuotedText
import Songsheet.Proofs.Scanner.Calls
import Songsheet.Proofs.SourcePath.Location
import Songsheet.Proofs.Token.Comment
import Songsheet.Proofs.Token.Tiling
