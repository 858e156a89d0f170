import ArithAsm.Command
import ArithAsm.Command.EditDistance
import ArithAsm.Options.Anywhere
import ArithAsm.Suite

/-!
The command with the subcommands `build`, which makes an executable from an
expression, and `run`, which runs it and prints its exit status. Native
programs cannot be started from here, so only the built-in machine runs them.
-/

namespace ArithAsm.Command.Run

/-- Options of the command itself, which all subcommands accept as well. -/
def sharedSpecs : List OptionSpec := [
  { name := "target", letter := some 116, kind := .text },
  { name := "config", kind := .text },
  { name := "allow-trailing", kind := .toggle },
  { name := "checked-numbers", kind := .toggle }]

def helpSpec : OptionSpec := { name := "help", letter := some 104, kind := .toggle }

inductive Subcommand where
  | build
  | run
  | help
  | completion
  deriving DecidableEq, Repr

namespace Subcommand

def name : Subcommand → String
  | build => "build"
  | run => "run"
  | help => "help"
  | completion => "completion"

def all : List Subcommand := [build, run, help, completion]

def ofName? (name : Text) : Option Subcommand :=
  all.find? fun c => Text.ofString c.name == name

def specs : Subcommand → List OptionSpec
  | build => [
      { name := "keep", letter := some 107, kind := .toggle },
      { name := "output", letter := some 111, kind := .text }]
  | run => [{ name := "emulate", kind := .toggle }]
  | help | completion => []

/-- Subcommands that are suggested for a word that is none. -/
def suggestible : List Subcommand := [build, run, completion]

/-- A subcommand is suggested if at most two edits turn the word into its name,
or if the word starts its name; letter case does not count. -/
def isSuggested (word : Text) (c : Subcommand) : Bool :=
  let name := Text.ofString c.name
  EditDistance.distance word.toLower name ≤ 2 || word.toLower.isPrefixOf name

end Subcommand

def suggestions (word : Text) : Text :=
  match Subcommand.suggestible.filter (Subcommand.isSuggested word) with
  | [] => []
  | found =>
      "\n\nDid you mean this?\n" ++
        (found.flatMap fun c => ("\t" : Text) ++ c.name ++ "\n" : Text)

/-- Whether an argument is an option whose value is the next argument. Options
that are not known count as such. -/
def takesNext (arg : Text) : Bool :=
  let isToggle (spec : Option OptionSpec) : Bool :=
    match spec with
    | some s => s.kind == .toggle
    | none => false
  match arg with
  | 45 :: 45 :: name => !name.contains 61 && !isToggle (Options.Anywhere.byName? sharedSpecs name)
  | [45, letter] => letter != 61 && !isToggle (Options.Anywhere.byLetter? sharedSpecs letter)
  | _ => false

def isDashed (arg : Text) : Bool :=
  arg.head? == some 45

/-- The arguments that are neither options nor their values. -/
def words : List Text → List Text
  | [] => []
  | arg :: rest =>
      if arg = "--" then []
      else if takesNext arg then
        match rest with
        | [] => []
        | [_] => []
        | _ :: rest => words rest
      else if arg ≠ [] ∧ ¬ isDashed arg then arg :: words rest
      else words rest

/-- Removes the first argument that is the given word. -/
def dropWord (word : Text) : List Text → List Text
  | [] => []
  | arg :: rest =>
      if arg = "--" then arg :: rest
      else if takesNext arg then
        match rest with
        | [] => [arg]
        | value :: rest => arg :: value :: dropWord word rest
      else if arg = word then rest
      else arg :: dropWord word rest

/-- What the arguments ask for: a subcommand and its own arguments, or help. -/
inductive Request where
  | perform (c : Subcommand) (a : Arguments)
  | help

def requestOf (c : Option Subcommand) (args : List Text) : Except Text Request := do
  let own := (c.map Subcommand.specs).getD []
  let a ← (Options.Anywhere.parse (own ++ sharedSpecs ++ [helpSpec]) args).mapError (·.message)
  match c with
  | some .build | some .run =>
      if a.toggle "help" then return .help
      else return .perform (c.getD .run) a
  | _ => return .help

def request (args : List Text) : Except Text Request :=
  match words args with
  | [] => requestOf none args
  | word :: _ =>
      match Subcommand.ofName? word with
      | some c => requestOf (some c) (dropWord word args)
      | none =>
          .error ("unknown command " ++ Quoted.ofText word ++ " for \"expr\"" ++ suggestions word)

def compileSource (host : Host) (a : Arguments) (source : Text) : Except Diagnostic Compilation := do
  let t ← (Target.ofName (a.text "target" host.target.name)).mapError (.plain ·.message)
  let opts : ReadOptions := ⟨a.toggle "allow-trailing", a.toggle "checked-numbers"⟩
  (compile t opts source).mapError .ofCompileError

variable {m : Type → Type} [Monad m]

/-- Finds the native toolchain, which cannot be put to use. -/
def native (files : FileSystem m) (host : Host) (a : Arguments) : m Outcome := do
  let path := a.text "config" []
  match ← Toolchain.resolve files host.toolchain path host.compilerVariable with
  | .error e => return .failed e.message
  | .ok c => return .failed ("cannot start " ++ c.driver)

def emulate (c : Compilation) : Outcome :=
  match Executor.emulator c with
  | .ok status => { code := 0, stdout := Decimal.ofInt status ++ "\n" }
  | .error e => .failed e.message

def perform (files : FileSystem m) (host : Host) (c : Subcommand) (a : Arguments) : m Outcome :=
  match a.operands with
  | [source] =>
      match compileSource host a source with
      | .error d => return .reported source d
      | .ok compiled =>
          if c = .run ∧ a.toggle "emulate" then return emulate compiled
          else native files host a
  | operands =>
      return .failed ("accepts 1 arg(s), received " ++ Decimal.ofNat operands.length)

def usage : Text := "usage: expr build|run [options] <expression>\n"

/-- Runs the command, with a way to tell what the arguments ask for. -/
def runWith (interpret : List Text → Except Text Request) (files : FileSystem m) (host : Host)
    (args : List Text) : m Outcome :=
  match interpret (Options.endBeforeExpression args) with
  | .error message => return .failed message
  | .ok .help => return { code := 0, stdout := usage }
  | .ok (.perform c a) => perform files host c a

def run (files : FileSystem m) (host : Host) (args : List Text) : m Outcome :=
  runWith request files host args

end ArithAsm.Command.Run
