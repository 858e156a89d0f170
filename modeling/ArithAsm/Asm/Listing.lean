import ArithAsm.Target

/-!
The text of an assembly program. Each platform has its own header, operand
forms and comment mark. An operand or a line that cannot be written in the
platform's form is a fault.
-/

namespace ArithAsm

inductive ListingFault where
  | arity (count : Int)
  | addressWithoutRegister (a : Operand)
  | writeback (a : Operand)
  | shift (a : Operand)
  | emptyOperand (a : Operand)
  deriving DecidableEq, Repr

def ListingFault.message : ListingFault → Text
  | arity count =>
      "runtime error: slice bounds out of range [:" ++ Decimal.ofInt count ++ "]" ++
        (if count > 3 then " with capacity 3" else "")
  | addressWithoutRegister a =>
      "invalid arg " ++ a.describe ++ ". dereferencing only supported for registers"
  | writeback a => "writeback addressing not supported on x86_64: " ++ a.describe
  | shift a => "lsl not supported on x86_64: " ++ a.describe
  | emptyOperand a => "invalid arg " ++ a.describe

namespace X86

/-- An address is written as its offset and the register in parentheses. -/
def operandText (a : Operand) : Except ListingFault Text :=
  if a.deref ∧ a.reg = "" then .error (.addressWithoutRegister a)
  else if a.preIndex ∨ a.postIndex then .error (.writeback a)
  else if a.reg ≠ "" then
    if a.offset ≠ 0 ∧ a.deref then .ok (Decimal.ofInt a.offset ++ "(%" ++ a.reg ++ ")")
    else if a.deref then .ok ("(%" ++ Text.ofString a.reg ++ ")")
    else .ok ("%" ++ Text.ofString a.reg)
  else if a.lsl ≠ 0 then .error (.shift a)
  else
    match a.imm with
    | some n => .ok ("$" ++ Decimal.ofInt n.toInt)
    | none => .error (.emptyOperand a)

end X86

namespace AArch64

/-- An address is written in brackets. An offset that is applied before the
access stands inside them, with an exclamation mark when it is kept; one that
is applied afterwards follows them. -/
def operandText (a : Operand) : Except ListingFault Text :=
  if a.deref ∧ a.reg = "" then .error (.addressWithoutRegister a)
  else if a.reg ≠ "" then
    if a.preIndex then .ok ("[" ++ Text.ofString a.reg ++ ", #" ++ Decimal.ofInt a.offset ++ "]!")
    else if a.postIndex then
      .ok ("[" ++ Text.ofString a.reg ++ "], #" ++ Decimal.ofInt a.offset)
    else if a.offset ≠ 0 ∧ a.deref then
      .ok ("[" ++ Text.ofString a.reg ++ ", #" ++ Decimal.ofInt a.offset ++ "]")
    else if a.deref then .ok ("[" ++ Text.ofString a.reg ++ "]")
    else .ok a.reg
  else if a.lsl ≠ 0 then .ok ("lsl #" ++ Decimal.ofInt a.lsl)
  else
    match a.imm with
    | some n => .ok ("#" ++ Decimal.ofInt n.toInt)
    | none => .error (.emptyOperand a)

end AArch64

namespace Listing

def operandText (t : Target) (a : Operand) : Except ListingFault Text :=
  match t with
  | .x86_64Linux => X86.operandText a
  | .aarch64Linux | .aarch64Darwin => AArch64.operandText a

def commentMark : Target → String
  | .x86_64Linux => "#"
  | .aarch64Linux => "//"
  | .aarch64Darwin => ";"

/-- The name a function has in the object file. -/
def symbol (t : Target) (name : String) : Text :=
  match t with
  | .aarch64Darwin => "_" ++ Text.ofString name
  | .x86_64Linux | .aarch64Linux => name

def header (t : Target) (name : String) : Text :=
  match t with
  | .x86_64Linux => ".text\n.globl " ++ symbol t name ++ "\n" ++ symbol t name ++ ":\n"
  | .aarch64Linux | .aarch64Darwin =>
      ".globl " ++ symbol t name ++ "\n.p2align 2\n" ++ symbol t name ++ ":\n"

def operandList (t : Target) (operands : List Operand) : Except ListingFault Text := do
  match ← operands.mapM (operandText t) with
  | [] => return []
  | texts => return " " ++ Text.joinWith ", " texts

/-- The instruction of a line, without its comment. A label takes precedence
over a mnemonic. -/
def instruction (t : Target) (l : Line) : Except ListingFault Text :=
  if l.label ≠ "" then .ok (l.label ++ ":")
  else if l.op ≠ "" then
    match l.operands? with
    | none => .error (.arity l.arity)
    | some operands => do
        let texts ← operandList t operands
        return "  " ++ Text.ofString l.op ++ texts
  else .ok []

def comment (t : Target) (l : Line) : Text :=
  if l.comment ≠ "" then "  " ++ commentMark t ++ " " ++ l.comment else []

def lineText (t : Target) (l : Line) : Except ListingFault Text := do
  let text ← instruction t l
  return text ++ comment t l ++ "\n"

def functionText (t : Target) (f : Function) : Except ListingFault Text := do
  let lines ← f.lines.mapM (lineText t)
  return header t f.name ++ lines.flatten

def render (t : Target) (p : Program) : Except ListingFault Text := do
  let functions ← p.functions.mapM (functionText t)
  return functions.flatten

end Listing

end ArithAsm
