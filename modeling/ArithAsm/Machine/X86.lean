import ArithAsm.Machine
import ArithAsm.Asm.X86

/-!
The x86-64 instructions. Operands come source first. The register `al` is the
low byte of `rax`.
-/

namespace ArithAsm.X86

inductive Arith where
  | add
  | sub
  | mul
  deriving DecidableEq, Repr

def Arith.apply (f : Arith) (dst src : Int64) : Int64 :=
  match f with
  | add => dst + src
  | sub => dst - src
  | mul => dst * src

inductive Mnemonic where
  | push
  | pop
  | move
  | arith (f : Arith)
  | extendSign
  | divide
  | compare
  | set (c : Condition)
  | extendByte
  | ret
  deriving DecidableEq, Repr

def Mnemonic.ofName? (name : String) : Option Mnemonic :=
  match name with
  | "pushq" => some push
  | "popq" => some pop
  | "movabsq" => some move
  | "addq" => some (arith .add)
  | "subq" => some (arith .sub)
  | "imulq" => some (arith .mul)
  | "cqto" => some extendSign
  | "idivq" => some divide
  | "cmpq" => some compare
  | "sete" => some (set .eq)
  | "setne" => some (set .ne)
  | "setl" => some (set .lt)
  | "setle" => some (set .le)
  | "setg" => some (set .gt)
  | "setge" => some (set .ge)
  | "movzbq" => some extendByte
  | "ret" => some ret
  | _ => none

/-- The value of an immediate, of a register, or of the low byte of `rax`. -/
def read (a : Operand) : Action Int64 :=
  match a.imm with
  | some value => return value
  | none =>
      if a.isPlainRegister then do
        let m ← get
        if a.reg = "al" then return m.get "rax" &&& 0xff else return m.get a.reg
      else throw (.unsupported (.operand a))

/-- Writes a register. Writing `al` keeps the other bytes of `rax`. -/
def write (a : Operand) (value : Int64) : Action Unit :=
  if a.isPlainRegister then
    if a.reg = "al" then
      modify fun m => m.set "rax" ((m.get "rax" &&& ~~~0xff) ||| (value &&& 0xff))
    else modify (·.set a.reg value)
  else throw (.unsupported (.destination a))

/-- All bits equal to the sign bit. -/
def signWord (value : Int64) : Int64 :=
  if value < 0 then -1 else 0

/-- An immediate to be pushed has to fit 32 bits. -/
def push (l : Line) : Action Unit := do
  l.expectArity 1
  let value ← read l.first
  if l.first.imm.isSome ∧ ¬ fitsInt32 value then
    throw (.unsupported (.wideImmediate value 32))
  else modify (·.push value)

/-- Takes the top of the stack before the destination is looked at, so the word
is lost when the destination cannot be written. -/
def pop (l : Line) : Action Unit := do
  l.expectArity 1
  let value ← Action.popTop
  write l.first value

def move (l : Line) : Action Unit := do
  l.expectArity 2
  let value ← read l.first
  write l.second value

def arith (f : Arith) (l : Line) : Action Unit := do
  l.expectArity 2
  let src ← read l.first
  let dst ← read l.second
  write l.second (f.apply dst src)

def extendSign (l : Line) : Action Unit := do
  l.expectArity 0
  modify fun m => m.set "rdx" (signWord (m.get "rax"))

/-- Divides `rax`, whose sign has to fill `rdx`. The quotient goes to `rax` and
the remainder to `rdx`. -/
def divide (l : Line) : Action Unit := do
  l.expectArity 1
  let divisor ← read l.first
  let m ← get
  let dividend := m.get "rax"
  if m.get "rdx" ≠ signWord dividend then throw (.unsupported .unextendedDividend)
  else if divisor = 0 then throw .divideByZero
  else if dividend = Int64.minValue ∧ divisor = -1 then throw .quotientOverflow
  else
    modify (·.set "rax" (dividend / divisor))
    modify (·.set "rdx" (dividend % divisor))

def compareOperands (l : Line) : Action Unit := do
  l.expectArity 2
  let src ← read l.first
  let dst ← read l.second
  modify (·.compare dst src)

def setByte (c : Condition) (l : Line) : Action Unit := do
  l.expectArity 1
  let m ← get
  write l.first (m.test c)

def extendByte (l : Line) : Action Unit := do
  l.expectArity 2
  if l.first.reg ≠ "al" then throw (.unsupported (.byteSource l.first.reg))
  else
    let value ← read l.first
    write l.second value

def ret (l : Line) : Action Unit := do
  l.expectArity 0
  modify ({ · with returned := true })

def effect : Mnemonic → Line → Action Unit
  | .push => push
  | .pop => pop
  | .move => move
  | .arith f => arith f
  | .extendSign => extendSign
  | .divide => divide
  | .compare => compareOperands
  | .set c => setByte c
  | .extendByte => extendByte
  | .ret => ret

end ArithAsm.X86
