import ScriptLexer.Scan.Log
import ScriptLexer.Scan.Tally
import ScriptLexer.Command.Directory
import ScriptLexer.Command.Run
import ScriptLexer.Main
import ScriptLexer.Proofs.Reader.Lines
import ScriptLexer.Proofs.Scan.Residue
import ScriptLexer.Proofs.Scan.Joined
import ScriptLexer.Proofs.Scan.Numbers
import ScriptLexer.Proofs.Scan.Display
import ScriptLexer.Proofs.Grammar.Image
import ScriptLexer.Proofs.Grammar.Spacing
import ScriptLexer.Proofs.Scan.Settled
import ScriptLexer.Proofs.Scan.Covered
import ScriptLexer.Proofs.Scan.Closing
import ScriptLexer.Proofs.Segment.Rewriting
import ScriptLexer.Proofs.Scan.Returns
import ScriptLexer.Proofs.Scan.Rewritten
import ScriptLexer.Proofs.Command.Lines
import ScriptLexer.Proofs.Diagnostic.LineEnds
import ScriptLexer.Proofs.Diagnostic.Place
import ScriptLexer.Proofs.Diagnostic.Rendered
import ScriptLexer.Proofs.Scan.Account
import ScriptLexer.Proofs.Command.Precedence
import ScriptLexer.Proofs.Numeral.Digits
import ScriptLexer.Proofs.Numeral.Fewest
import ScriptLexer.Proofs.Numeral.Fifteen
import ScriptLexer.Proofs.Scan.Typed
import ScriptLexer.Proofs.Text.Encoding
import ScriptLexer.Proofs.Reader.Reporting
import ScriptLexer.Proofs.Scan.Sinks
import ScriptLexer.Proofs.Command.Script
