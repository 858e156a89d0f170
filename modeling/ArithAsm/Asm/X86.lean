import ArithAsm.Asm.Code
import ArithAsm.Expr

/-!
Code for x86-64. The code of an expression leaves its value on top of the
stack and keeps what is below; it uses `rax`, `rdi` and `rdx`.
-/

namespace ArithAsm.X86

def rax : Operand := .register "rax"
def rdi : Operand := .register "rdi"
def al : Operand := .register "al"

def fitsInt32 (value : Int64) : Bool :=
  -2147483648 ≤ value.toInt && value.toInt ≤ 2147483647

def pushq (a : Operand) : Emitted := .push (.instr1 "pushq" a)
def popq (a : Operand) : Emitted := .pop (.instr1 "popq" a)

/-- Only 32-bit immediates can be pushed directly; larger ones go through
`rax`. -/
def pushNumber (value : Int64) : Code :=
  if fitsInt32 value then [pushq (.immediate value)]
  else [.plain (.instr2 "movabsq" (.immediate value) rax), pushq rax]

/-- The instruction that sets a byte to the outcome of a comparison. -/
def setter (op : Operator) : String :=
  match op with
  | .ne => "setne"
  | .lt => "setl"
  | .le => "setle"
  | .gt => "setg"
  | .ge => "setge"
  | _ => "sete"

/-- Compares `rax` with `rdi` and leaves zero or one in `rax`. -/
def compare (op : Operator) : List Line :=
  [.instr2 "cmpq" rdi rax, .instr1 (setter op) al, .instr2 "movzbq" al rax]

/-- Applies the operator to `rax` and `rdi`, with the result in `rax`. -/
def operation (op : Operator) : List Line :=
  match op with
  | .add => [.instr2 "addq" rdi rax]
  | .sub => [.instr2 "subq" rdi rax]
  | .mul => [.instr2 "imulq" rdi rax]
  | .div => [.instr0 "cqto", .instr1 "idivq" rdi]
  | op => compare op

def expression : Expr → Code
  | .number _ n => pushNumber n.toInt64
  | .binary _ op l r =>
      expression l ++ expression r ++
        ([popq rdi, popq rax] ++ (operation op).map .plain ++ [pushq rax])

def epilogue : Code :=
  [popq rax, .plain (.instr0 "ret")]

def program (e : Expr) : Except LoweringFault Program :=
  Program.ofCode .x86_64 (expression e) epilogue

end ArithAsm.X86
