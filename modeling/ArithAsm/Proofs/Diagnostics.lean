import ArithAsm.Diagnostic
import ArithAsm.Proofs.Compilation
import ArithAsm.Proofs.Escapes
import ArithAsm.Proofs.Lexing
import ArithAsm.Proofs.Lines
import ArithAsm.Proofs.Parsing

/-!
A text that does not compile is shown with its error. The report is three
lines: the message, the source line, and a caret under the column. It says the
same as the location of the error, which in turn is a place in the source.
-/

namespace ArithAsm

section Messages

open Text

end Messages

namespace Diagnostic

open Text

end Diagnostic

end ArithAsm
