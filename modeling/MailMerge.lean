import MailMerge.Merger
import MailMerge.Json.Read
import MailMerge.Plain
import MailMerge.Token.Stream
import MailMerge.Expr.Matching
import MailMerge.Proofs.Delimiters
import MailMerge.Proofs.Cutting
import MailMerge.Proofs.LexicalGrammar
import MailMerge.Proofs.Statements
import MailMerge.Proofs.Drafts
import MailMerge.Proofs.BlockGrammar
import MailMerge.Proofs.FirstFault
import MailMerge.Proofs.Printing
import MailMerge.Proofs.Rendering
import MailMerge.Proofs.Mentions
import MailMerge.Proofs.Concatenation
import MailMerge.Proofs.JsonMarks
import MailMerge.Proofs.ExprRules
import MailMerge.Proofs.Conversion
import MailMerge.Proofs.Listing
import MailMerge.Proofs.Evaluations
import MailMerge.Proofs.Namespaces
import MailMerge.Proofs.Nesting
import MailMerge.Proofs.Overlay
import MailMerge.Proofs.Preflight
import MailMerge.Proofs.Calls
import MailMerge.Proofs.MoreNames
import MailMerge.Proofs.Pieces
import MailMerge.Proofs.WrittenJson
import MailMerge.Proofs.PlainTypes
import MailMerge.Proofs.Registrations
import MailMerge.Proofs.Leaves
import MailMerge.Proofs.Markup
import MailMerge.Proofs.ErrorTexts
import MailMerge.Proofs.ReferenceGrammar
import MailMerge.Proofs.Operators
import MailMerge.Proofs.Chains
import MailMerge.Proofs.Sources
import MailMerge.Proofs.Rounding
import MailMerge.Proofs.Transitivity
import MailMerge.Proofs.Equality
import MailMerge.Proofs.Comparisons
import MailMerge.Proofs.IntegerKeys
import MailMerge.Proofs.MapParts
import MailMerge.Proofs.Unmatched
import MailMerge.Proofs.Matching
import MailMerge.Proofs.FirstOperator
