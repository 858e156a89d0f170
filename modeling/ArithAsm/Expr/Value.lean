import ArithAsm.Expr

/-!
The value of an expression. Words are signed 64-bit numbers and arithmetic
wraps around; division goes toward zero and comparisons give zero or one.
`eval` fails on a division that has no word as its result. `totalValue` gives
such a division a value instead: zero for a zero divisor, and the wrapped
quotient for the most negative word divided by minus one.
-/

namespace ArithAsm

inductive DivisionCause where
  | byZero
  | overflow
  deriving DecidableEq, Repr

def DivisionCause.message : DivisionCause → Text
  | byZero => "division by zero"
  | overflow => "division overflow"

structure EvalError where
  cause : DivisionCause
  loc : Location
  deriving DecidableEq, Repr

def EvalError.message (e : EvalError) : Text :=
  "at " ++ e.loc.text ++ ": " ++ e.cause.message

namespace Operator

def truth (p : Prop) [Decidable p] : Int64 :=
  if p then 1 else 0

/-- The result on all pairs of words. -/
def totalResult (op : Operator) (a b : Int64) : Int64 :=
  match op with
  | add => a + b
  | sub => a - b
  | mul => a * b
  | div => a / b
  | eq => truth (a = b)
  | ne => truth (a ≠ b)
  | lt => truth (a < b)
  | le => truth (a ≤ b)
  | gt => truth (a > b)
  | ge => truth (a ≥ b)

/-- Why an operation on two words has no result, if it has none. -/
def trap? (op : Operator) (a b : Int64) : Option DivisionCause :=
  match op with
  | div =>
      if b = 0 then some .byZero
      else if a = Int64.minValue ∧ b = -1 then some .overflow
      else none
  | _ => none

def result (op : Operator) (a b : Int64) : Except DivisionCause Int64 :=
  match op.trap? a b with
  | some cause => .error cause
  | none => .ok (op.totalResult a b)

end Operator

namespace Expr

def eval : Expr → Except EvalError Int64
  | .number _ n => .ok n.toInt64
  | .binary loc op l r => do
      let a ← eval l
      let b ← eval r
      (op.result a b).mapError (⟨·, loc⟩)

def totalValue : Expr → Int64
  | .number _ n => n.toInt64
  | .binary _ op l r => op.totalResult (totalValue l) (totalValue r)

end Expr

namespace Outline

inductive EvalFault where
  | failed (error : EvalError)
  | defect (defect : Defect)
  deriving DecidableEq, Repr

/-- The value of an outline. A defect shows only when evaluation reaches it:
the left child comes first, then the right one, then the operator. -/
def eval : Outline → Except EvalFault Int64
  | .number _ (some n) => .ok n.toInt64
  | .number _ none => .error (.defect .missingNode)
  | .binary loc code l r => do
      let a ← eval l
      let b ← eval r
      match Operator.ofCode? code with
      | some op => (op.result a b).mapError fun cause => .failed ⟨cause, loc⟩
      | none => .error (.defect (.unsupportedOperator code))

end Outline

/-- The low eight bits of a word, which is what a process reports. -/
def exitStatus (value : Int64) : Nat :=
  (value.toInt % 256).toNat

end ArithAsm
