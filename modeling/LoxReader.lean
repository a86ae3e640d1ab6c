import LoxReader.Arena.Edit
import LoxReader.Arena.Links
import LoxReader.Arena.Walk
import LoxReader.Ast.Visit
import LoxReader.Main
import LoxReader.Proofs.Expr.ViablePrefix
import LoxReader.Proofs.RoundTrip
import LoxReader.Proofs.Arena.Chain
import LoxReader.Proofs.Arena.Forest
import LoxReader.Proofs.Arena.Linked
import LoxReader.Proofs.Arena.Depiction
import LoxReader.Proofs.Arena.History
import LoxReader.Proofs.Arena.Paths
import LoxReader.Proofs.Ast.Order
import LoxReader.Proofs.Ast.Leaves
import LoxReader.Proofs.Tokenization.Numbering
import LoxReader.Proofs.SourceOrder
import LoxReader.Proofs.Building
import LoxReader.Proofs.Tokenization.Tracking
import LoxReader.Proofs.Ast.Shapes
import LoxReader.Proofs.Tokenization.Inventory
import LoxReader.Proofs.Totality
import LoxReader.Proofs.Expr.Precedence
import LoxReader.Proofs.Ast.Complete
import LoxReader.Proofs.Ast.Precedence
import LoxReader.Proofs.Ast.Term
import LoxReader.Proofs.Reparsing
import LoxReader.Proofs.Ast.Sexp
import LoxReader.Proofs.Arena.Preorder
import LoxReader.Proofs.Ast.Walk
import LoxReader.Proofs.Source.Counting
import LoxReader.Proofs.Tokenization.Occurrences
import LoxReader.Proofs.Tokenization.Placement
import LoxReader.Proofs.Diagnosis
import LoxReader.Proofs.Tokenization.Payloads
import LoxReader.Proofs.Respacing
import LoxReader.Proofs.Lexeme.LineBreak
import LoxReader.Proofs.Tokenization.Joining
import LoxReader.Proofs.Source.Lines
import LoxReader.Proofs.Report.Snippet
import LoxReader.Proofs.Text.Utf8
import LoxReader.Proofs.Session
import LoxReader.Proofs.Building.Rules
import LoxReader.Proofs.Building.Append
import LoxReader.Proofs.Arena.Trail
import LoxReader.Proofs.Arena.Agreement
import LoxReader.Proofs.Arena.InPlace
import LoxReader.Proofs.Lexeme.Cut
import LoxReader.Proofs.Tokenization.Errors
import LoxReader.Proofs.Tokenization.Blanking
import LoxReader.Proofs.Arena.Ancestry
import LoxReader.Proofs.Tokenization.Numerals
import LoxReader.Proofs.Tokenization.Rows
import LoxReader.Proofs.Tokenization.Decoding
import LoxReader.Proofs.Listing
import LoxReader.Proofs.Tokenization.ListingLines
import LoxReader.Proofs.Report.Emission
import LoxReader.Proofs.Tokenization.Limits
import LoxReader.Proofs.Cursor.Run
