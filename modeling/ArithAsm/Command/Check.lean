import ArithAsm.Command
import ArithAsm.LogLine
import ArithAsm.Options.Leading
import ArithAsm.Suite.File
import ArithAsm.Table

/-!
The command that runs the cases of a file, or some of them, and prints a verdict
for each and a summary of all. How a file is decoded and how the summary is drawn
does not matter to the rest of it, so both are parameters.
-/

namespace ArithAsm.Command.Check

/-- The formats of what the command reads and writes: how the text of a case file is
decoded, and how a table of titles and one row of cells is drawn. -/
structure Formats where
  decode : Text → Except Yaml.Error (List Case)
  draw : (titles cells : List Text) → Text

def Formats.standard : Formats := ⟨Suite.decode, Table.render⟩

def specs : List OptionSpec := [
  { name := "cases", kind := .text },
  { name := "config", kind := .text },
  { name := "target", kind := .text },
  { name := "emulate", kind := .toggle },
  { name := "jobs", kind := .integer },
  { name := "verbose", kind := .toggle },
  { name := "help", letter := some 104, kind := .toggle }]

inductive Error where
  | options (error : Options.Leading.Error)
  | target (error : UnknownTarget)
  | unreadable (path : Text) (error : FileError)
  | caseFile (error : CaseFileError)
  | selection (error : Suite.UnmatchedId)
  | toolchain (error : ToolchainError)
  | notStarted (driver : Text)
  deriving DecidableEq, Repr

def Error.message : Error → Text
  | options error => error.message
  | target error => error.message
  | unreadable path error => "reading cases from " ++ path ++ ": " ++ error.message
  | caseFile error => error.message
  | selection error => error.message
  | toolchain error => error.message
  | notStarted driver => "cannot start " ++ driver

def casesPath (a : Arguments) : Text :=
  a.text "cases" "tests/cases.yaml"

def verdict (r : CaseResult) : Text :=
  if r.passed then "PASS " ++ r.case.name ++ "\n"
  else
    match r.failure with
    | some failure => "FAIL " ++ r.case.name ++ ": " ++ failure.message ++ "\n"
    | none => "FAIL " ++ r.case.name ++ ": <nil>\n"

def titles : List Text :=
  ["TARGET", "EXECUTOR", "PASSED", "FAILED", "TOTAL", "ELAPSED"]

/-- The numbers of passed and failed cases and of both together. -/
def cells (target executor : Text) (passed failed : Int) (elapsed : Text) : List Text :=
  [target, executor, Decimal.ofInt passed, Decimal.ofInt failed,
    Decimal.ofInt (passed + failed), elapsed]

def summary (target executor : Text) (passed failed : Int) (elapsed : Text) : Text :=
  Formats.standard.draw titles (cells target executor passed failed elapsed)

def passedCount (results : List CaseResult) : Nat :=
  results.countP (·.passed)

def startLog (host : Host) (a : Arguments) (t : Target) (count : Nat) : LogLine :=
  { time := host.logTime
    level := "debug"
    message := "running cases"
    fields := [("cases", Decimal.ofNat count), ("target", t.name),
      ("jobs", Decimal.ofInt (a.integer "jobs" host.processors))] }

def caseLog (host : Host) (r : CaseResult) : LogLine :=
  { time := host.logTime
    level := "debug"
    message := "case finished"
    fields := [("case", r.case.name), ("input", r.case.input),
      ("status", Decimal.ofInt r.status), ("duration", host.logElapsed)] }

def log (host : Host) (a : Arguments) (t : Target) (results : List CaseResult) : Text :=
  if a.toggle "verbose" then
    (startLog host a t results.length).render ++ results.flatMap fun r => (caseLog host r).render
  else []

/-- The verdicts and the summary of cases run on the built-in machine. -/
def emulated (formats : Formats) (host : Host) (a : Arguments) (t : Target)
    (cases : List Case) : Outcome :=
  let results := Suite.run ⟨compile t {}, Executor.emulator⟩ cases
  let passed := passedCount results
  let failed := results.length - passed
  { code := if Suite.failures results = [] then 0 else 1
    stdout := results.flatMap verdict ++
      formats.draw titles (cells t.name "emulator" passed failed host.totalElapsed)
    stderr := log host a t results }

/-- The cases of a file that the operands select. -/
def selected (formats : Formats) (a : Arguments) (contents : Except FileError Text) :
    Except Error (List Case) := do
  let body ← contents.mapError (.unreadable (casesPath a))
  let cases ← (Suite.accept (formats.decode body)).mapError .caseFile
  (Suite.select cases a.operands).mapError .selection

variable {m : Type → Type} [Monad m]

/-- Finds the native toolchain, which cannot be put to use. -/
def native (files : FileSystem m) (host : Host) (a : Arguments) : m (Except Error Outcome) := do
  let path := a.text "config" []
  match ← Toolchain.resolve files host.toolchain path host.compilerVariable with
  | .error e => return .error (.toolchain e)
  | .ok c => return .error (.notStarted c.driver)

def perform (formats : Formats) (files : FileSystem m) (host : Host) (a : Arguments) :
    m (Except Error Outcome) := do
  match Target.ofName (a.text "target" host.target.name) with
  | .error e => return .error (.target e)
  | .ok t =>
      match selected formats a (← files.read (casesPath a)) with
      | .error e => return .error e
      | .ok [] => return .ok { code := 0, stdout := "No cases found in " ++ casesPath a ++ "\n" }
      | .ok cases =>
          if a.toggle "emulate" then return .ok (emulated formats host a t cases)
          else native files host a

def usage : Text := "usage: testrunner [options] [case number or name...]\n"

def Error.answer : Error → Text
  | options error => error.answer usage
  | _ => []

def performArguments (formats : Formats) (files : FileSystem m) (host : Host)
    (args : List Text) : m (Except Error Outcome) :=
  match Options.Leading.parse specs args with
  | .error e => return .error (.options e)
  | .ok a =>
      if a.toggle "help" then return .ok { code := 0, stdout := usage }
      else perform formats files host a

def runWith (formats : Formats) (files : FileSystem m) (host : Host) (args : List Text) :
    m Outcome := do
  match ← performArguments formats files host args with
  | .ok outcome => return outcome
  | .error e => return { code := 1, stdout := e.answer, stderr := "Error: " ++ e.message ++ "\n" }

def run (files : FileSystem m) (host : Host) (args : List Text) : m Outcome :=
  runWith .standard files host args

end ArithAsm.Command.Check
