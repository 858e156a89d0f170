import ArithAsm.Asm

/-!
The state that assembly programs work on: registers, a stack of words, the two
operands of the last comparison, and whether the program has returned. A
register that was never written reads as zero.
-/

namespace ArithAsm

/-- The registers written so far, in the order of their first write. -/
structure Registers where
  entries : List (String × Int64) := []
  deriving DecidableEq, Repr

namespace Registers

def get (r : Registers) (name : String) : Int64 :=
  (r.entries.lookup name).getD 0

def write (name : String) (value : Int64) : List (String × Int64) → List (String × Int64)
  | [] => [(name, value)]
  | entry :: rest =>
      if entry.1 = name then (name, value) :: rest else entry :: write name value rest

def set (r : Registers) (name : String) (value : Int64) : Registers :=
  ⟨write name value r.entries⟩

theorem lookup_write (entries : List (String × Int64)) (name other : String) (value : Int64) :
    (write name value entries).lookup other =
      if other = name then some value else entries.lookup other := by
  have key_ne {a b : String} (h : a ≠ b) : (a == b) = false := beq_eq_false_iff_ne.mpr h
  induction entries with
  | nil => by_cases h : other = name <;> simp [write, List.lookup_cons, h, key_ne]
  | cons entry rest ih =>
      obtain ⟨key, old⟩ := entry
      by_cases hkey : key = name
      · subst hkey
        by_cases h : other = key <;> simp [write, List.lookup_cons, h, key_ne]
      · by_cases h : other = key
        · subst h
          simp [write, hkey]
        · simp [write, List.lookup_cons, hkey, h, key_ne, ih]

@[simp] theorem get_set_same (r : Registers) (name : String) (value : Int64) :
    (r.set name value).get name = value := by
  simp [get, set, lookup_write]

@[simp] theorem get_set_ne (r : Registers) {name other : String} (value : Int64)
    (h : other ≠ name) : (r.set name value).get other = r.get other := by
  simp [get, set, lookup_write, h]

theorem write_write (entries : List (String × Int64)) (name : String) (first second : Int64) :
    write name second (write name first entries) = write name second entries := by
  induction entries with
  | nil => simp [write]
  | cons entry rest ih => by_cases h : entry.1 = name <;> simp [write, h, ih]

@[simp] theorem set_set (r : Registers) (name : String) (first second : Int64) :
    (r.set name first).set name second = r.set name second :=
  congrArg mk (write_write r.entries name first second)

end Registers

inductive Condition where
  | eq
  | ne
  | lt
  | le
  | gt
  | ge
  deriving DecidableEq, Repr

namespace Condition

def ofName? (name : String) : Option Condition :=
  match name with
  | "eq" => some eq
  | "ne" => some ne
  | "lt" => some lt
  | "le" => some le
  | "gt" => some gt
  | "ge" => some ge
  | _ => none

def holds (c : Condition) (left right : Int64) : Bool :=
  match c with
  | eq => left = right
  | ne => left ≠ right
  | lt => left < right
  | le => left ≤ right
  | gt => left > right
  | ge => left ≥ right

end Condition

/-- Why an instruction with a known mnemonic has no meaning on the machine. -/
inductive Unsupported where
  | arity (expected : Nat) (got : Int)
  | operand (a : Operand)
  | destination (a : Operand)
  | wideImmediate (value : Int64) (bits : Nat)
  | unextendedDividend
  | byteSource (reg : String)
  | condition (name : String)
  | keptImmediate (a : Operand)
  | keptShift (bits : Int)
  | storeAddress (a : Operand)
  | loadAddress (a : Operand)
  deriving DecidableEq, Repr

def Unsupported.message : Unsupported → Text
  | arity expected got =>
      "expected " ++ Decimal.ofNat expected ++ " operands, got " ++ Decimal.ofInt got
  | operand a => "operand " ++ a.describe
  | destination a => "destination " ++ a.describe
  | wideImmediate value bits =>
      "immediate " ++ Decimal.ofInt value.toInt ++ " does not fit " ++ Decimal.ofNat bits ++ " bits"
  | unextendedDividend => "idivq without sign-extended rdx"
  | byteSource reg => "movzbq from " ++ Quoted.ofText reg
  | condition name => "condition " ++ Quoted.ofText name
  | keptImmediate a => "movk immediate " ++ a.describe
  | keptShift bits => "movk shift " ++ Decimal.ofInt bits
  | storeAddress a => "store address " ++ a.describe
  | loadAddress a => "load address " ++ a.describe

inductive Fault where
  | stackUnderflow
  | divideByZero
  | quotientOverflow
  | unsupported (reason : Unsupported)
  deriving DecidableEq, Repr

def Fault.message : Fault → Text
  | stackUnderflow => "stack underflow"
  | divideByZero => "division by zero: divide error"
  | quotientOverflow => "quotient overflow: divide error"
  | unsupported reason => reason.message ++ ": unsupported instruction"

/-- The stack has its top first. -/
structure Machine where
  registers : Registers := {}
  stack : List Int64 := []
  compared : Int64 × Int64 := (0, 0)
  returned : Bool := false
  deriving DecidableEq, Repr

namespace Machine

def get (m : Machine) (name : String) : Int64 :=
  m.registers.get name

def set (m : Machine) (name : String) (value : Int64) : Machine :=
  { m with registers := m.registers.set name value }

def push (m : Machine) (value : Int64) : Machine :=
  { m with stack := value :: m.stack }

def compare (m : Machine) (left right : Int64) : Machine :=
  { m with compared := (left, right) }

/-- One if the last comparison satisfies the condition, zero otherwise. -/
def test (m : Machine) (c : Condition) : Int64 :=
  if c.holds m.compared.1 m.compared.2 then 1 else 0

@[simp] theorem get_set_same (m : Machine) (name : String) (value : Int64) :
    (m.set name value).get name = value := by
  simp [get, set]

@[simp] theorem get_set_ne (m : Machine) {name other : String} (value : Int64)
    (h : other ≠ name) : (m.set name value).get other = m.get other := by
  simp [get, set, h]

@[simp] theorem set_set (m : Machine) (name : String) (first second : Int64) :
    (m.set name first).set name second = m.set name second := by
  simp [set]

@[simp] theorem stack_push (m : Machine) (value : Int64) :
    (m.push value).stack = value :: m.stack := rfl

end Machine

/-- An instruction that cannot be executed, with the machine as it leaves it. -/
structure Stop where
  machine : Machine
  fault : Fault
  deriving DecidableEq, Repr

/-- A computation that works on the machine in place. One that fails leaves the
machine as it is at that point, with all that was changed until then. -/
abbrev Action := EStateM Fault Machine

namespace Action

/-- Takes the word on top of the stack. -/
def popTop : Action Int64 := do
  match (← get).stack with
  | [] => throw .stackUnderflow
  | value :: rest =>
      modify ({ · with stack := rest })
      return value

/-- The machine after an action, or the one that a failing action stops at. -/
def outcome (act : Action Unit) (m : Machine) : Except Stop Machine :=
  match act.run m with
  | .ok _ m => .ok m
  | .error fault m => .error ⟨m, fault⟩

end Action

def Line.expectArity (l : Line) (count : Nat) : Action Unit :=
  if l.arity = count then return else throw (.unsupported (.arity count l.arity))

end ArithAsm
