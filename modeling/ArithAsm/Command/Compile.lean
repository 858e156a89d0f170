import ArithAsm.Command
import ArithAsm.LogLine
import ArithAsm.Options.Leading

/-!
The command that compiles one expression and writes its assembly, its tree or
its lexemes to a file or to standard output. Output is written as a whole or
not at all.
-/

namespace ArithAsm.Command.Compile

def specs : List OptionSpec := [
  { name := "target", letter := some 116, kind := .text },
  { name := "emit", kind := .text },
  { name := "output", letter := some 111, kind := .text },
  { name := "allow-trailing", kind := .toggle },
  { name := "checked-numbers", kind := .toggle },
  { name := "verbose", kind := .toggle },
  { name := "help", letter := some 104, kind := .toggle }]

def usage : Text := "usage: exprc [options] <expression>\n"

inductive Emission where
  | assembly
  | tree
  | lexemes
  deriving DecidableEq, Repr

namespace Emission

def ofName? (name : Text) : Option Emission :=
  if name = "asm" then some assembly
  else if name = "ast" then some tree
  else if name = "tokens" then some lexemes
  else none

def lexemeLine (l : Lexeme) : Text :=
  l.loc.text ++ " " ++ l.describe ++ "\n"

def render (t : Target) (opts : ReadOptions) (source : Text) : Emission → Except CompileError Text
  | assembly => do return (← compile t opts source).assembly
  | tree => do return Expr.sexpr (← readExpr opts source) ++ "\n"
  | lexemes => do return (← readLexemes opts source).flatMap lexemeLine

end Emission

def readOptions (a : Arguments) : ReadOptions :=
  ⟨a.toggle "allow-trailing", a.toggle "checked-numbers"⟩

/-- The target asked for and the text to be written. -/
def rendered (host : Host) (a : Arguments) (source : Text) : Except Diagnostic (Target × Text) := do
  let t ← (Target.ofName (a.text "target" host.target.name)).mapError (.plain ·.message)
  let emit := a.text "emit" "asm"
  match Emission.ofName? emit with
  | none => .error (.plain ("unknown --emit value " ++ Quoted.ofText emit))
  | some emission =>
      let output ← (emission.render t (readOptions a) source).mapError .ofCompileError
      return (t, output)

def logLine (host : Host) (a : Arguments) (t : Target) (output : Text) : LogLine :=
  { time := host.logTime
    level := "debug"
    message := "compiled expression"
    fields := [("target", t.name), ("emit", a.text "emit" "asm"),
      ("bytes", Decimal.ofNat output.length), ("elapsed", host.logElapsed)] }

def log (host : Host) (a : Arguments) (t : Target) (output : Text) : Text :=
  if a.toggle "verbose" then (logLine host a t output).render else []

variable {m : Type → Type} [Monad m]

def write (files : FileSystem m) (path output log : Text) : m Outcome := do
  if path = "-" then return { code := 0, stdout := output, stderr := log }
  else
    match ← files.write path output with
    | .ok _ => return { code := 0, stderr := log }
    | .error e =>
        let failure := Outcome.failed ("writing output: " ++ e.message)
        return { failure with stderr := log ++ failure.stderr }

def compileOperand (files : FileSystem m) (host : Host) (a : Arguments) : m Outcome :=
  match a.operands with
  | [source] =>
      match rendered host a source with
      | .error d => return .reported source d
      | .ok (t, output) => write files (a.text "output" "-") output (log host a t output)
  | operands =>
      let failure := Outcome.failed
        ("expected exactly one expression argument, got " ++ Decimal.ofNat operands.length)
      return { failure with stderr := failure.stderr ++ usage }

/-- What comes of arguments that cannot be read. -/
def refused (e : Options.Leading.Error) : Outcome :=
  { Outcome.failed e.message with stdout := e.answer usage }

def run (files : FileSystem m) (host : Host) (args : List Text) : m Outcome :=
  match Options.Leading.parse specs (Options.endBeforeExpression args) with
  | .error e => return refused e
  | .ok a =>
      if a.toggle "help" then return { code := 0, stdout := usage }
      else compileOperand files host a

end ArithAsm.Command.Compile
