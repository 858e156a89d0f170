import ArithAsm.Expr
import ArithAsm.Lexeme

/-!
The parser reads one expression from a list of lexemes, from left to right and
without looking back. Between lexemes it knows whether an operand or an
operator comes next, and it keeps a stack of what is still open: parentheses,
minus signs, and left operands waiting for their right one. A lexeme that
cannot continue the expression either ends it or is an error.

From loosest to tightest the operators are equality, comparison, addition,
multiplication and signs; all binary ones group to the left. A minus sign
subtracts from zero, a plus sign does nothing.
-/

namespace ArithAsm

inductive ParseCause where
  | unclosedParen
  | expectedPrimary
  | trailingInput
  deriving DecidableEq, Repr

def ParseCause.message : ParseCause → Text
  | unclosedParen => "expected closing parenthesis"
  | expectedPrimary => "expected number or parenthesis"
  | trailingInput => "unexpected token after expression"

structure ParseError where
  cause : ParseCause
  loc : Location
  got : Lexeme
  deriving DecidableEq, Repr

namespace ParseError

def ofLexeme (cause : ParseCause) (got : Lexeme) : ParseError :=
  ⟨cause, got.loc, got⟩

def message (e : ParseError) : Text :=
  e.loc.text ++ ": " ++ e.cause.message ++ ", got " ++ e.got.describe

end ParseError

def LexemeKind.operator? : LexemeKind → Option Operator
  | plus => some .add
  | minus => some .sub
  | star => some .mul
  | slash => some .div
  | eq => some .eq
  | ne => some .ne
  | lt => some .lt
  | le => some .le
  | gt => some .gt
  | ge => some .ge
  | _ => none

namespace Parser

/-- Something opened and not yet completed. -/
inductive Frame where
  | group
  | negate (loc : Location)
  | apply (loc : Location) (op : Operator) (left : Expr)
  deriving DecidableEq, Repr

/-- A minus sign in front of an operand: zero minus the operand, both at the
location of the sign. -/
def negated (loc : Location) (e : Expr) : Expr :=
  .binary loc .sub (.number loc 0) e

/-- What comes next, with the open frames, innermost first. -/
inductive State where
  | operand (stack : List Frame)
  | operator (stack : List Frame) (e : Expr)
  deriving DecidableEq, Repr

/-- An operand has been read: the minus signs right before it apply to it. -/
def settle : List Frame → Expr → State
  | .negate loc :: stack, e => settle stack (negated loc e)
  | stack, e => .operator stack e

/-- Completes the open operations that bind at least as tightly as `rank`. -/
def reduce (rank : Nat) : List Frame → Expr → List Frame × Expr
  | .apply loc op left :: stack, e =>
      if rank ≤ op.rank then reduce rank stack (.binary loc op left e)
      else (.apply loc op left :: stack, e)
  | stack, e => (stack, e)

/-- Completes everything down to the innermost open parenthesis. -/
def unwind : List Frame → Expr → List Frame × Expr
  | .apply loc op left :: stack, e => unwind stack (.binary loc op left e)
  | .negate loc :: stack, e => unwind stack (negated loc e)
  | stack, e => (stack, e)

namespace State

def initial : State := .operand []

/-- The state after a lexeme that continues the expression. -/
def shift? : State → Lexeme → Option State
  | operand stack, l =>
      match l.kind with
      | .number => some (settle stack (.number l.loc l.value))
      | .plus => some (operand stack)
      | .minus => some (operand (.negate l.loc :: stack))
      | .leftParen => some (operand (.group :: stack))
      | _ => none
  | operator stack e, l =>
      match l.kind.operator? with
      | some op =>
          let (stack, left) := reduce op.rank stack e
          some (operand (.apply l.loc op left :: stack))
      | none =>
          match l.kind, unwind stack e with
          | .rightParen, (.group :: stack, e) => some (settle stack e)
          | _, _ => none

/-- The expression read so far, if it is complete. -/
def finish : State → Except ParseCause Expr
  | operand _ => .error .expectedPrimary
  | operator stack e =>
      match unwind stack e with
      | ([], e) => .ok e
      | _ => .error .unclosedParen

end State

/-- Reads lexemes while they continue the expression. The answer comes with the
lexemes left over: the one that ends the expression is left, the one that is
reported in an error is not. `eof` stands for the end of the list. -/
def run (eof : Lexeme) : State → List Lexeme → Except ParseError Expr × List Lexeme
  | s, [] => (s.finish.mapError (.ofLexeme · eof), [])
  | s, l :: rest =>
      match s.shift? l with
      | some s => run eof s rest
      | none =>
          match s.finish with
          | .ok e => (.ok e, l :: rest)
          | .error cause => (.error (.ofLexeme cause l), rest)

end Parser

/-- A list of lexemes with a cursor: the lexemes not yet read, and the location
where the whole list ends. -/
structure Parser where
  rest : List Lexeme
  endLoc : Location
  deriving DecidableEq, Repr

namespace Parser

def ofLexemes (ls : List Lexeme) : Parser :=
  ⟨ls, (ls.getLast?.map Lexeme.endLoc).getD .start⟩

/-- The lexeme at the cursor, which is an end marker when there is none. -/
def peek (p : Parser) : Lexeme :=
  p.rest.head?.getD (.eofAt p.endLoc)

/-- Reads one expression and moves the cursor past it. Unless trailing input is
allowed, the expression has to be followed by the end. -/
def expression (allowTrailing : Bool) (p : Parser) : Except ParseError Expr × Parser :=
  let (answer, rest) := run (.eofAt p.endLoc) .initial p.rest
  let p := { p with rest }
  match answer with
  | .error e => (.error e, p)
  | .ok e =>
      if allowTrailing || p.peek.kind = .eof then (.ok e, p)
      else (.error (.ofLexeme .trailingInput p.peek), p)

end Parser

/-- The expression that a list of lexemes spells. -/
def parse (allowTrailing : Bool) (ls : List Lexeme) : Except ParseError Expr :=
  ((Parser.ofLexemes ls).expression allowTrailing).1

end ArithAsm
