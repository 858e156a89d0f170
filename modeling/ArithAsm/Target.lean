import ArithAsm.Asm.X86
import ArithAsm.Asm.AArch64

/-!
The platforms code is generated for. A target can also be given by a code or by
a name; not every code and not every name stands for one.
-/

namespace ArithAsm

inductive Target where
  | x86_64Linux
  | aarch64Linux
  | aarch64Darwin
  deriving DecidableEq, Repr

namespace Target

def all : List Target :=
  [x86_64Linux, aarch64Linux, aarch64Darwin]

def name : Target → String
  | x86_64Linux => "x86_64-linux"
  | aarch64Linux => "aarch64-linux"
  | aarch64Darwin => "aarch64-darwin"

def code : Target → Int
  | x86_64Linux => 0
  | aarch64Linux => 1
  | aarch64Darwin => 2

def arch : Target → Arch
  | x86_64Linux => .x86_64
  | aarch64Linux | aarch64Darwin => .aarch64

def ofCode? (code : Int) : Option Target :=
  all.find? (·.code = code)

/-- The name of the target with a given code. A code without a target is shown
as a number. -/
def nameOfCode (code : Int) : Text :=
  match ofCode? code with
  | some t => t.name
  | none => "Target(" ++ Decimal.ofInt code ++ ")"

/-- The architecture that goes with a code: a code without a target counts as
one of the AArch64 family. -/
def archOfCode (code : Int) : Arch :=
  match ofCode? code with
  | some t => t.arch
  | none => .aarch64

/-- The names a target is known by, the usual one first. -/
def names : Target → List String
  | x86_64Linux => ["x86_64-linux", "amd64-linux"]
  | aarch64Linux => ["aarch64-linux", "arm64-linux"]
  | aarch64Darwin => ["aarch64-darwin", "arm64-darwin"]

def ofName? (name : Text) : Option Target :=
  all.find? fun t => t.names.any fun n => Text.ofString n == name

/-- The target of the machine a program runs on. -/
def ofHost (system processor : String) : Target :=
  if system = "darwin" then aarch64Darwin
  else if processor = "arm64" then aarch64Linux
  else x86_64Linux

/-- The program that computes an expression on the target. -/
def lower (t : Target) (e : Expr) : Except LoweringFault Program :=
  match t with
  | x86_64Linux => X86.program e
  | aarch64Linux | aarch64Darwin => AArch64.program e

end Target

/-- A target that was asked for and does not exist, by its name or by the text
of its code. -/
structure UnknownTarget where
  name : Text
  deriving DecidableEq, Repr

namespace UnknownTarget

def message (e : UnknownTarget) : Text :=
  "unknown target: " ++ e.name

end UnknownTarget

namespace Target

def ofName (name : Text) : Except UnknownTarget Target :=
  match ofName? name with
  | some t => .ok t
  | none => .error ⟨name⟩

def ofCode (code : Int) : Except UnknownTarget Target :=
  match ofCode? code with
  | some t => .ok t
  | none => .error ⟨nameOfCode code⟩

end Target

end ArithAsm
