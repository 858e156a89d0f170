import ArithAsm.Asm.Code
import ArithAsm.Expr

/-!
Code for AArch64. The code of an expression leaves its value on top of the
stack and keeps what is below; it uses `x0` and `x1`. A stack slot takes
sixteen bytes.
-/

namespace ArithAsm.AArch64

def x0 : Operand := .register "x0"
def x1 : Operand := .register "x1"

/-- The sixteen bits of a word that start at the given bit. Bits past the end
of the word are zero. -/
def slice16 (value : UInt64) (bit : Nat) : Nat :=
  (value.toNat >>> bit) % 65536

inductive SliceError where
  | negativeShift
  deriving DecidableEq, Repr

def SliceError.message : SliceError → Text
  | negativeShift => "runtime error: negative shift amount"

/-- The same at a signed position, where a negative one is refused. -/
def slice16At (value : UInt64) (bit : Int) : Except SliceError Nat :=
  if bit < 0 then .error .negativeShift else .ok (slice16 value bit.toNat)

def chunk (value : UInt64) (bit : Nat) : Operand :=
  .immediate (Int64.ofNat (slice16 value bit))

/-- Puts a word into a register: the low sixteen bits first, then every other
slice that is not zero. -/
def loadImmediate (reg : String) (value : UInt64) : List Line :=
  .instr2 "mov" (.register reg) (chunk value 0) ::
    ([16, 32, 48].filter (slice16 value · ≠ 0)).map fun bit =>
      .instr3 "movk" (.register reg) (chunk value bit) (.shift bit)

def push (reg : Operand) : Emitted :=
  .push (.instr2 "str" reg { reg := "sp", offset := -16, deref := true, preIndex := true })

def pop (reg : Operand) : Emitted :=
  .pop (.instr2 "ldr" reg { reg := "sp", offset := 16, deref := true, postIndex := true })

def condition (op : Operator) : String :=
  match op with
  | .ne => "ne"
  | .lt => "lt"
  | .le => "le"
  | .gt => "gt"
  | .ge => "ge"
  | _ => "eq"

/-- Compares `x0` with `x1` and leaves zero or one in `x0`. -/
def compare (op : Operator) : List Line :=
  [.instr2 "cmp" x0 x1, .instr2 "cset" x0 (.register (condition op))]

/-- Applies the operator to `x0` and `x1`, with the result in `x0`. -/
def operation (op : Operator) : List Line :=
  match op with
  | .add => [.instr3 "add" x0 x0 x1]
  | .sub => [.instr3 "sub" x0 x0 x1]
  | .mul => [.instr3 "mul" x0 x0 x1]
  | .div => [.instr3 "sdiv" x0 x0 x1]
  | op => compare op

def expression : Expr → Code
  | .number _ n => (loadImmediate "x0" n).map .plain ++ [push x0]
  | .binary _ op l r =>
      expression l ++ expression r ++
        ([pop x1, pop x0] ++ (operation op).map .plain ++ [push x0])

def epilogue : Code :=
  [pop x0, .plain (.instr0 "ret")]

def program (e : Expr) : Except LoweringFault Program :=
  Program.ofCode .aarch64 (expression e) epilogue

end ArithAsm.AArch64
