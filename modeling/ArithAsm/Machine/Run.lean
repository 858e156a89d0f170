import ArithAsm.Machine.X86
import ArithAsm.Machine.AArch64

/-!
Running a program: its first function `main` is executed line by line until it
returns, and the answer is the word in the result register. At that point
nothing may be left on the stack.
-/

namespace ArithAsm

inductive RunError where
  | unknownArchitecture (arch : Arch)
  | noMain
  | noReturn
  | unbalancedStack (count : Nat)
  | unknownInstruction (index : Nat) (op : String)
  | stopped (index : Nat) (op : String) (fault : Fault)
  deriving DecidableEq, Repr

def RunError.message : RunError → Text
  | unknownArchitecture arch => "unknown architecture: " ++ Text.ofString arch.name
  | noMain => "program has no main function"
  | noReturn => "main falls off the end without returning"
  | unbalancedStack count =>
      Decimal.ofNat count ++ " values: values left on the stack at return"
  | unknownInstruction index op =>
      "line " ++ Decimal.ofNat index ++ ": " ++ op ++ ": unsupported instruction"
  | stopped index op fault =>
      "line " ++ Decimal.ofNat index ++ ": " ++ op ++ ": " ++ fault.message

namespace Machine

/-- What an architecture does on the lines with a given mnemonic, if it knows
the mnemonic. -/
def instruction? (arch : Arch) (name : String) : Option (Line → Action Unit) :=
  match arch with
  | .aarch64 => (AArch64.Mnemonic.ofName? name).map AArch64.effect
  | .x86_64 | .unknown => (X86.Mnemonic.ofName? name).map X86.effect

/-- Executes one instruction, or answers nothing if its mnemonic is not known. -/
def step? (arch : Arch) (l : Line) (m : Machine) : Option (Except Stop Machine) :=
  (instruction? arch l.op).map fun act => (act l).outcome m

/-- Executes lines until the machine has returned. Lines without a mnemonic
are skipped, but they count in the line number `index`. -/
def runLines (arch : Arch) : Nat → List Line → Machine → Except RunError Machine
  | _, [], _ => .error .noReturn
  | index, l :: rest, m =>
      if l.op = "" then runLines arch (index + 1) rest m
      else
        match step? arch l m with
        | none => .error (.unknownInstruction index l.op)
        | some (.error stop) => .error (.stopped index l.op stop.fault)
        | some (.ok m) => if m.returned then .ok m else runLines arch (index + 1) rest m

end Machine

namespace Program

def resultRegister : Arch → String
  | .aarch64 => "x0"
  | .x86_64 | .unknown => "rax"

def main? (p : Program) : Option Function :=
  p.functions.find? (·.name = "main")

def run (p : Program) : Except RunError Int64 :=
  if p.arch = .unknown then .error (.unknownArchitecture p.arch)
  else
    match p.main? with
    | none => .error .noMain
    | some f => do
        let m ← Machine.runLines p.arch 0 f.lines {}
        if m.stack ≠ [] then .error (.unbalancedStack m.stack.length)
        else return m.get (resultRegister p.arch)

end Program

end ArithAsm
