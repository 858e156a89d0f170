import ArithAsm.Location

/-!
Expression trees. A tree has numbers at its leaves and binary operations at its
inner nodes, each with the location it was read from. The kinds of number and
operator are parameters: an `Expr` holds 64-bit words and the ten operators, in a
`CodeTree` the operators are given by their codes, and an `Outline` is a tree as
it is described from outside, where leaves may be missing as well.
-/

namespace ArithAsm

inductive Operator where
  | add
  | sub
  | mul
  | div
  | eq
  | ne
  | lt
  | le
  | gt
  | ge
  deriving DecidableEq, Repr

namespace Operator

def symbol : Operator → String
  | add => "+"
  | sub => "-"
  | mul => "*"
  | div => "/"
  | eq => "=="
  | ne => "!="
  | lt => "<"
  | le => "<="
  | gt => ">"
  | ge => ">="

/-- Whether the result is a truth value, zero or one. -/
def isComparison : Operator → Bool
  | add | sub | mul | div => false
  | eq | ne | lt | le | gt | ge => true

/-- How tightly the operator binds: multiplication most, equality least. -/
def rank : Operator → Nat
  | eq | ne => 0
  | lt | le | gt | ge => 1
  | add | sub => 2
  | mul | div => 3

/-- The operator with a given code. The codes are zero to nine in the order of
declaration. -/
def ofCode? (code : Int) : Option Operator :=
  match code with
  | 0 => some add
  | 1 => some sub
  | 2 => some mul
  | 3 => some div
  | 4 => some eq
  | 5 => some ne
  | 6 => some lt
  | 7 => some le
  | 8 => some gt
  | 9 => some ge
  | _ => none

/-- The symbol of the operator with a given code. A code without an operator is
shown as a number. -/
def nameOfCode (code : Int) : Text :=
  match ofCode? code with
  | some op => op.symbol
  | none => "Operator(" ++ Decimal.ofInt code ++ ")"

end Operator

inductive Tree (ν ω : Type) where
  | number (loc : Location) (value : ν)
  | binary (loc : Location) (op : ω) (left right : Tree ν ω)
  deriving DecidableEq, Repr

namespace Tree

variable {ν ω : Type}

/-- The fully parenthesised form with the operator in front. -/
def sexpr (number : ν → Text) (operator : ω → Text) : Tree ν ω → Text
  | .number _ n => number n
  | .binary _ op l r =>
      "(" ++ operator op ++ " " ++ sexpr number operator l ++ " " ++
        sexpr number operator r ++ ")"

/-- The nodes with their locations, each before its children and the left child
before the right one. -/
def preorder (number : ν → Text) (operator : ω → Text) : Tree ν ω → List (Text × Location)
  | .number loc n => [(number n, loc)]
  | .binary loc op l r =>
      (operator op, loc) :: (preorder number operator l ++ preorder number operator r)

end Tree

abbrev Expr := Tree UInt64 Operator

namespace Expr

def numeral (n : UInt64) : Text :=
  Decimal.ofNat n.toNat

def sexpr (e : Expr) : Text :=
  Tree.sexpr numeral (·.symbol) e

def preorder (e : Expr) : List (Text × Location) :=
  Tree.preorder numeral (·.symbol) e

end Expr

/-- A tree over operator codes, some of which may stand for no operator. -/
abbrev CodeTree := Tree UInt64 Int

namespace CodeTree

def sexpr (t : CodeTree) : Text :=
  Tree.sexpr Expr.numeral Operator.nameOfCode t

def preorder (t : CodeTree) : List (Text × Location) :=
  Tree.preorder Expr.numeral Operator.nameOfCode t

end CodeTree

/-- A tree over operator codes with leaves that may be missing. -/
abbrev Outline := Tree (Option UInt64) Int

namespace Outline

inductive Defect where
  | unsupportedOperator (code : Int)
  | missingNode
  deriving DecidableEq, Repr

def Defect.message : Defect → Text
  | unsupportedOperator code => "unsupported operator: " ++ Operator.nameOfCode code
  | missingNode => "unsupported node type: <nil>"

/-- The tree an outline describes, which cannot be shown while a leaf is missing. -/
def toCodeTree : Outline → Except Defect CodeTree
  | .number loc (some n) => .ok (.number loc n)
  | .number _ none => .error .missingNode
  | .binary loc code l r => do
      let left ← toCodeTree l
      let right ← toCodeTree r
      return .binary loc code left right

/-- The parenthesised form, or the defect that keeps the outline from having one. -/
def sexpr (t : Outline) : Text :=
  match toCodeTree t with
  | .ok tree => tree.sexpr
  | .error d => d.message

def preorder (t : Outline) : List (Text × Location) :=
  match toCodeTree t with
  | .ok tree => tree.preorder
  | .error _ => []

/-- The expression an outline describes. Its first defect, children before
their parent, is reported instead. -/
def toExpr : Outline → Except Defect Expr
  | .number loc (some n) => .ok (.number loc n)
  | .number _ none => .error .missingNode
  | .binary loc code l r => do
      let left ← toExpr l
      let right ← toExpr r
      match Operator.ofCode? code with
      | some op => .ok (.binary loc op left right)
      | none => .error (.unsupportedOperator code)

end Outline

end ArithAsm
