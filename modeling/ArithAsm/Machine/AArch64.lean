import ArithAsm.Machine

/-!
The AArch64 instructions. Operands come destination first. The stack pointer is
no ordinary register: only stores that push a slot and loads that pop one may
name it.
-/

namespace ArithAsm.AArch64

inductive Arith where
  | add
  | sub
  | mul
  | div
  deriving DecidableEq, Repr

/-- Division by zero gives zero, and the one overflowing quotient wraps. -/
def Arith.apply (f : Arith) (a b : Int64) : Int64 :=
  match f with
  | add => a + b
  | sub => a - b
  | mul => a * b
  | div => a / b

inductive Mnemonic where
  | move
  | moveKeep
  | store
  | load
  | arith (f : Arith)
  | compare
  | set
  | ret
  deriving DecidableEq, Repr

def Mnemonic.ofName? (name : String) : Option Mnemonic :=
  match name with
  | "mov" => some move
  | "movk" => some moveKeep
  | "str" => some store
  | "ldr" => some load
  | "add" => some (arith .add)
  | "sub" => some (arith .sub)
  | "mul" => some (arith .mul)
  | "sdiv" => some (arith .div)
  | "cmp" => some compare
  | "cset" => some set
  | "ret" => some ret
  | _ => none

def registerName (a : Operand) : Action String :=
  if a.isPlainRegister ∧ a.reg ≠ "sp" then return a.reg
  else throw (.unsupported (.operand a))

def read (a : Operand) : Action Int64 := do
  let reg ← registerName a
  return (← get).get reg

def fits16 (value : Int64) : Bool :=
  0 ≤ value.toInt && value.toInt ≤ 65535

/-- Replaces the sixteen bits of a word that start at the given bit. -/
def replaceSlice (word : Int64) (slice : Int64) (bit : Nat) : Int64 :=
  let shift := UInt64.ofNat bit
  ((word.toUInt64 &&& ~~~(0xffff <<< shift)) ||| (slice.toUInt64 <<< shift)).toInt64

def move (l : Line) : Action Unit := do
  l.expectArity 2
  let dst ← registerName l.first
  match l.second.imm with
  | none =>
      let value ← read l.second
      modify (·.set dst value)
  | some value =>
      if fits16 value then modify (·.set dst value)
      else throw (.unsupported (.wideImmediate value 16))

/-- Sets one of the three upper slices of a register and keeps the rest. -/
def moveKeep (l : Line) : Action Unit := do
  l.expectArity 3
  let dst ← registerName l.first
  match l.second.imm.filter fits16 with
  | none => throw (.unsupported (.keptImmediate l.second))
  | some value =>
      let bit := l.third.lsl
      if bit = 16 ∨ bit = 32 ∨ bit = 48 then
        modify fun m => m.set dst (replaceSlice (m.get dst) value bit.toNat)
      else throw (.unsupported (.keptShift bit))

def store (l : Line) : Action Unit := do
  l.expectArity 2
  let address := l.second
  if address.reg = "sp" ∧ address.preIndex ∧ address.offset = -16 then
    let value ← read l.first
    modify (·.push value)
  else throw (.unsupported (.storeAddress address))

def load (l : Line) : Action Unit := do
  l.expectArity 2
  let address := l.second
  if address.reg = "sp" ∧ address.postIndex ∧ address.offset = 16 then
    let dst ← registerName l.first
    let value ← Action.popTop
    modify (·.set dst value)
  else throw (.unsupported (.loadAddress address))

def arith (f : Arith) (l : Line) : Action Unit := do
  l.expectArity 3
  let dst ← registerName l.first
  let a ← read l.second
  let b ← read l.third
  modify (·.set dst (f.apply a b))

def compareOperands (l : Line) : Action Unit := do
  l.expectArity 2
  let a ← read l.first
  let b ← read l.second
  modify (·.compare a b)

/-- The condition is named where a register would stand. -/
def setCondition (l : Line) : Action Unit := do
  l.expectArity 2
  let dst ← registerName l.first
  match Condition.ofName? l.second.reg with
  | some c => modify fun m => m.set dst (m.test c)
  | none => throw (.unsupported (.condition l.second.reg))

def ret (l : Line) : Action Unit := do
  l.expectArity 0
  modify ({ · with returned := true })

def effect : Mnemonic → Line → Action Unit
  | .move => move
  | .moveKeep => moveKeep
  | .store => store
  | .load => load
  | .arith f => arith f
  | .compare => compareOperands
  | .set => setCondition
  | .ret => ret

end ArithAsm.AArch64
