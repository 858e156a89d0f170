import ArithAsm.Text.Quoted
import ArithAsm.Text.Decimal

/-!
Assembly programs: functions made of lines, lines made of a mnemonic and up to
three operands. Operands are records of independent fields, so not every
operand and not every line can be written down or executed.
-/

namespace ArithAsm

inductive Arch where
  | x86_64
  | aarch64
  | unknown
  deriving DecidableEq, Repr

namespace Arch

def name : Arch → String
  | x86_64 => "x86_64"
  | aarch64 => "aarch64"
  | unknown => "unknown"

def ofCode (code : Int) : Arch :=
  match code with
  | 0 => x86_64
  | 1 => aarch64
  | _ => unknown

end Arch

/-- A register, an immediate or a shift amount. `deref` takes the register as
an address, `offset` is added to it, and the two index flags say whether that
happens before or after the access. -/
structure Operand where
  reg : String := ""
  imm : Option Int64 := none
  lsl : Int := 0
  offset : Int := 0
  deref : Bool := false
  preIndex : Bool := false
  postIndex : Bool := false
  deriving DecidableEq, Repr, Inhabited

namespace Operand

def register (name : String) : Operand :=
  { reg := name }

def immediate (value : Int64) : Operand :=
  { imm := some value }

def shift (bits : Int) : Operand :=
  { lsl := bits }

/-- The register as a value, rather than as an address. -/
def isPlainRegister (a : Operand) : Bool :=
  a.reg != "" && !a.deref && a.imm.isNone

private def flagText (b : Bool) : Text :=
  if b then "true" else "false"

/-- Every field of the operand, for messages about one that has no meaning. The
value of an immediate is not shown. -/
def describe (a : Operand) : Text :=
  "asm.Arg\x7bReg:" ++ Quoted.ofText a.reg ++
    ", Imm:(*int64)(" ++ (if a.imm.isSome then "PTR" else "nil") ++
    "), Lsl:" ++ Decimal.ofInt a.lsl ++
    ", Offset:" ++ Decimal.ofInt a.offset ++
    ", Deref:" ++ flagText a.deref ++
    ", PreIndex:" ++ flagText a.preIndex ++
    ", PostIndex:" ++ flagText a.postIndex ++ "\x7d"

end Operand

/-- A line of a function. `arity` says how many of the three operands are
meant; the others are ignored. A line without a mnemonic is a label, a comment
or empty. -/
structure Line where
  op : String := ""
  label : String := ""
  comment : String := ""
  arity : Int := 0
  first : Operand := {}
  second : Operand := {}
  third : Operand := {}
  deriving DecidableEq, Repr, Inhabited

namespace Line

def instr0 (op : String) : Line :=
  { op }

def instr1 (op : String) (a : Operand) : Line :=
  { op, arity := 1, first := a }

def instr2 (op : String) (a b : Operand) : Line :=
  { op, arity := 2, first := a, second := b }

def instr3 (op : String) (a b c : Operand) : Line :=
  { op, arity := 3, first := a, second := b, third := c }

/-- The operands that are meant, if there are that many. -/
def operands? (l : Line) : Option (List Operand) :=
  if 0 ≤ l.arity ∧ l.arity ≤ 3 then
    some ([l.first, l.second, l.third].take l.arity.toNat)
  else none

end Line

structure Function where
  name : String
  lines : List Line
  deriving DecidableEq, Repr

structure Program where
  arch : Arch
  functions : List Function
  deriving DecidableEq, Repr

end ArithAsm
