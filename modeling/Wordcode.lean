import Wordcode.ControlFlow
import Wordcode.Bytes.Form
import Wordcode.Disassembly
import Wordcode.Assembly
import Wordcode.Listing.Line
import Wordcode.Listing.Lexeme
import Wordcode.Verify
import Wordcode.Text.Quoted
import Wordcode.Text.Layout
import Wordcode.Proofs.Listing.Meaning
import Wordcode.Proofs.Traversal
import Wordcode.Proofs.Word.Canonical
import Wordcode.Proofs.Builder.Session
import Wordcode.Proofs.Assembly.Patching
import Wordcode.Proofs.Assembly.TwoPass
import Wordcode.Proofs.Disassembly.RoundTrip
import Wordcode.Proofs.ControlFlow.Loops
import Wordcode.Proofs.Verify.Report
import Wordcode.Proofs.Builder.Contents
import Wordcode.Proofs.Function.Obtainable
import Wordcode.Proofs.Bytes.Exact
import Wordcode.Proofs.Assembly.Errors
import Wordcode.Proofs.Assembly.Requests
import Wordcode.Proofs.Disassembly.Words
import Wordcode.Proofs.Verify.Toggles
import Wordcode.Proofs.Verify.Stability
import Wordcode.Proofs.Verify.Unchecked
import Wordcode.Proofs.Listing.Misplaced
import Wordcode.Proofs.Word.Refused
import Wordcode.Proofs.Disassembly.Notes
import Wordcode.Proofs.Assembly.Edits
import Wordcode.Proofs.Assembly.Literals
import Wordcode.Proofs.Builder.Backpatch
import Wordcode.Proofs.Listing.StringLiteral
import Wordcode.Proofs.Listing.Pattern
import Wordcode.Proofs.Listing.Coverage
