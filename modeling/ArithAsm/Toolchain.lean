import ArithAsm.FileSystem
import ArithAsm.ShellWords
import ArithAsm.Yaml.Field

/-!
How programs are assembled and linked: the compiler driver, its flags, and how
long it may take. A file can override the defaults, and a variable of the
environment can override the driver and its flags. How the file is decoded and how
the variable is split into words are parameters of both.
-/

namespace ArithAsm

structure Toolchain where
  driver : Text
  flags : List Text
  timeout : Duration
  deriving DecidableEq, Repr

inductive ToolchainError where
  | unreadable (path : Text) (error : FileError)
  | malformed (path : Text) (error : Yaml.Error)
  | emptyDriver (path : Text)
  | malformedVariable (error : ShellWords.Error)
  deriving DecidableEq, Repr

def ToolchainError.message : ToolchainError → Text
  | unreadable path error => "reading toolchain config " ++ path ++ ": " ++ error.message
  | malformed path _ => "parsing toolchain config " ++ path
  | emptyDriver path => "toolchain config " ++ path ++ ": driver must not be empty"
  | malformedVariable error => "parsing EXPRC_CC: " ++ error.message

namespace Toolchain

open Yaml (Node)

def defaultTimeout : Duration := ⟨30 * Duration.second⟩

/-- The defaults on a given system and processor. -/
def ofHost (system processor : String) : Toolchain :=
  let flags : List Text :=
    if system = "darwin" then ["-arch", if processor = "amd64" then "x86_64" else "arm64"] else []
  ⟨"cc", flags, defaultTimeout⟩

/-- Takes over the fields that a file gives. -/
def update (base : Toolchain) (t : Text) : Except Yaml.Error Toolchain := do
  match ← Node.ofText t with
  | none => return base
  | some root =>
      match ← root.record? with
      | none => return base
      | some fields =>
          let driver ← Node.field fields "driver" Node.text?
          let flags ← Node.field fields "flags" fun node => do
            return some (← node.list Node.text?)
          let timeout ← Node.field fields "timeout" Node.duration?
          return ⟨driver.getD base.driver, flags.getD base.flags, timeout.getD base.timeout⟩

/-- The formats of a configuration: how the text of a file updates it, and how the value
of a variable is split into words. -/
structure Formats where
  update : Toolchain → Text → Except Yaml.Error Toolchain
  split : Text → Except ShellWords.Error (List Text)

def Formats.standard : Formats := ⟨Toolchain.update, ShellWords.split⟩

/-- A usable configuration: the driver has a name, and a timeout that is not
positive gives way to the default. -/
def check (path : Text) (c : Toolchain) : Except ToolchainError Toolchain :=
  if c.driver = [] then .error (.emptyDriver path)
  else if c.timeout.nanoseconds ≤ 0 then .ok { c with timeout := defaultTimeout }
  else .ok c

namespace Formats

/-- The configuration that a file gives over the defaults. -/
def ofContents (formats : Formats) (base : Toolchain) (path : Text)
    (contents : Except FileError Text) : Except ToolchainError Toolchain := do
  let t ← contents.mapError (.unreadable path)
  let c ← (formats.update base t).mapError (.malformed path)
  c.check path

/-- Reads the file at `path`; an empty path means the defaults. -/
def load {m : Type → Type} [Monad m] (formats : Formats) (files : FileSystem m) (base : Toolchain)
    (path : Text) : m (Except ToolchainError Toolchain) := do
  if path = [] then return .ok base
  else return formats.ofContents base path (← files.read path)

/-- Takes driver and flags from the words of a variable, if it holds any. -/
def withVariable (formats : Formats) (c : Toolchain) (value : Option Text) :
    Except ToolchainError Toolchain :=
  match value with
  | none | some [] => .ok c
  | some value =>
      match formats.split value with
      | .error e => .error (.malformedVariable e)
      | .ok [] => .ok c
      | .ok (driver :: flags) => .ok { c with driver, flags }

end Formats

def load {m : Type → Type} [Monad m] (files : FileSystem m) (base : Toolchain) (path : Text) :
    m (Except ToolchainError Toolchain) :=
  Formats.standard.load files base path

def withVariable (c : Toolchain) (value : Option Text) : Except ToolchainError Toolchain :=
  Formats.standard.withVariable c value

/-- The configuration in force: the file first, then the variable. -/
def resolve {m : Type → Type} [Monad m] (files : FileSystem m) (base : Toolchain) (path : Text)
    (value : Option Text) : m (Except ToolchainError Toolchain) := do
  match ← load files base path with
  | .error e => return .error e
  | .ok c => return c.withVariable value

/-- The command that builds `name` from `name.s` in a directory. -/
def buildCommand (c : Toolchain) (directory name : Text) : List Text :=
  c.driver :: c.flags ++
    [("-o" : Text), Path.join directory name, Path.join directory (name ++ ".s")]

end Toolchain

end ArithAsm
