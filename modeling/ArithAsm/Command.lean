import ArithAsm.Diagnostic
import ArithAsm.Toolchain

/-!
What commands have in common: what they know of the machine they run on, and
what they leave behind besides files.
-/

namespace ArithAsm

/-- The surroundings of a command. Times are given as the texts to be shown,
since nothing else depends on them. -/
structure Host where
  target : Target
  toolchain : Toolchain
  compilerVariable : Option Text := none
  processors : Nat := 1
  logTime : Text
  logElapsed : Text
  totalElapsed : Text

structure Outcome where
  code : Nat
  stdout : Text := []
  stderr : Text := []
  deriving DecidableEq, Repr

namespace Outcome

/-- A failure that is reported with its place in the source. -/
def reported (source : Text) (d : Diagnostic) : Outcome :=
  { code := 1, stderr := d.report .uncolored source }

def failed (message : Text) : Outcome :=
  reported [] (.plain message)

end Outcome

end ArithAsm
