import ArithAsm.Text.Numeral
import ArithAsm.Text.Quoted

/-!
Command line options: what a command accepts, and what a reading of its
arguments gave. An option takes a text, takes a whole number, or is a toggle
that may stand alone.
-/

namespace ArithAsm

inductive OptionKind where
  | text
  | integer
  | toggle
  deriving DecidableEq, Repr

/-- An option has a name and may have a letter as a second, shorter one. -/
structure OptionSpec where
  name : String
  letter : Option UInt8 := none
  kind : OptionKind
  deriving DecidableEq, Repr

inductive OptionValue where
  | text (value : Text)
  | integer (value : Int)
  | toggle (value : Bool)
  deriving DecidableEq, Repr

/-- An option that was given, under its main name. `byLetter` tells whether the
letter was used. -/
structure Setting where
  name : String
  byLetter : Bool
  value : OptionValue
  deriving DecidableEq, Repr

/-- The options given, in order, and the arguments that are not options. -/
structure Arguments where
  settings : List Setting := []
  operands : List Text := []
  deriving DecidableEq, Repr

namespace Arguments

def add (s : Setting) (a : Arguments) : Arguments :=
  { a with settings := s :: a.settings }

def addOperand (t : Text) (a : Arguments) : Arguments :=
  { a with operands := t :: a.operands }

/-- The value given last. -/
def value? (a : Arguments) (name : String) : Option OptionValue :=
  (a.settings.reverse.find? (·.name = name)).map (·.value)

def text (a : Arguments) (name : String) (default : Text) : Text :=
  match a.value? name with
  | some (.text t) => t
  | _ => default

def integer (a : Arguments) (name : String) (default : Int) : Int :=
  match a.value? name with
  | some (.integer n) => n
  | _ => default

def toggle (a : Arguments) (name : String) : Bool :=
  match a.value? name with
  | some (.toggle b) => b
  | _ => false

end Arguments

namespace Options

def truthy : List String := ["1", "t", "T", "TRUE", "true", "True"]
def falsy : List String := ["0", "f", "F", "FALSE", "false", "False"]

def toggleValue? (t : Text) : Option Bool :=
  if truthy.any (Text.ofString · == t) then some true
  else if falsy.any (Text.ofString · == t) then some false
  else none

def integerMessage : Numeral.Error → Text
  | .malformed => "parse error"
  | .outOfRange => "value out of range"

/-- The part before the first equals sign, and the part after it if there is
one. -/
def splitValue (t : Text) : Text × Option Text :=
  match t.dropWhile (· ≠ 61) with
  | [] => (t, none)
  | _ :: value => (t.takeWhile (· ≠ 61), some value)

/-- A run of signs followed by a digit or a parenthesis is an expression, not
an option. -/
def isSigned (arg : Text) : Bool :=
  let isSign (b : UInt8) : Bool := b == 43 || b == 45
  match arg with
  | [] => false
  | b :: rest =>
      isSign b &&
        match rest.dropWhile isSign with
        | [] => false
        | next :: _ => Decimal.isDigit next || next == 40

/-- Ends the options before the first argument that is a signed expression,
unless they end earlier. -/
def endBeforeExpression : List Text → List Text
  | [] => []
  | arg :: rest =>
      if arg = "--" then arg :: rest
      else if isSigned arg then "--" :: arg :: rest
      else arg :: endBeforeExpression rest

end Options

end ArithAsm
