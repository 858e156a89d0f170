import ArithAsm.Options

/-!
Arguments whose options come first. An option starts with one or two dashes;
its value is part of the argument, after an equals sign, or is the next
argument. The first argument that is not an option ends the options, and so
does a pair of dashes, which is dropped. Names and letters are not told apart.
-/

namespace ArithAsm.Options.Leading

inductive Error where
  | malformed (arg : Text)
  | undefined (name : Text)
  | missingValue (name : Text)
  | invalidToggle (value name : Text)
  | invalidInteger (value name : Text) (reason : Numeral.Error)
  | twoForms (letter : UInt8) (name : String)
  deriving DecidableEq, Repr

def Error.message : Error → Text
  | malformed arg => "bad flag syntax: " ++ arg
  | undefined name => "flag provided but not defined: -" ++ name
  | missingValue name => "flag needs an argument: -" ++ name
  | invalidToggle value name =>
      "invalid boolean value " ++ Quoted.ofText value ++ " for -" ++ name ++ ": parse error"
  | invalidInteger value name reason =>
      "invalid value " ++ Quoted.ofText value ++ " for flag -" ++ name ++ ": " ++ integerMessage reason
  | twoForms letter name =>
      "Cannot use two forms of the same flag: " ++ [letter] ++ " " ++ Text.ofString name

/-- What is printed besides the message: an option that is given under both its names
is answered with the usage of the command. -/
def Error.answer (usage : Text) (e : Error) : Text :=
  match e with
  | twoForms _ _ => e.message ++ "\n" ++ usage
  | _ => []

/-- What an argument is at a place where options may stand. -/
inductive Shape where
  | operand
  | terminator
  | malformed
  | option (name : Text) (value : Option Text)
  deriving DecidableEq, Repr

/-- The name of an option is neither empty nor does it start with a dash or an
equals sign. -/
def named (t : Text) : Shape :=
  match t with
  | [] => .malformed
  | b :: _ => if b = 45 ∨ b = 61 then .malformed else .option (splitValue t).1 (splitValue t).2

def shape (arg : Text) : Shape :=
  match arg with
  | [45, 45] => .terminator
  | 45 :: 45 :: rest => named rest
  | 45 :: b :: rest => named (b :: rest)
  | _ => .operand

def isLetter (s : OptionSpec) (name : Text) : Bool :=
  match s.letter with
  | some b => name == [b]
  | none => false

def find? (specs : List OptionSpec) (name : Text) : Option OptionSpec :=
  specs.find? fun s => Text.ofString s.name == name || isLetter s name

/-- The value of an option that was given as a text, under the name used. -/
def valueOf (s : OptionSpec) (name value : Text) : Except Error OptionValue :=
  match s.kind with
  | .text => .ok (.text value)
  | .integer =>
      match Numeral.signed value with
      | .ok n => .ok (.integer n)
      | .error reason => .error (.invalidInteger value name reason)
  | .toggle =>
      match toggleValue? value with
      | some b => .ok (.toggle b)
      | none => .error (.invalidToggle value name)

def setting (s : OptionSpec) (name value : Text) : Except Error Setting := do
  return ⟨s.name, isLetter s name, ← valueOf s name value⟩

/-- Reads arguments from left to right. `pending` is an option whose value is
the next argument, with the name it was given under. -/
def read (specs : List OptionSpec) (pending : Option (OptionSpec × Text)) :
    List Text → Except Error Arguments
  | [] =>
      match pending with
      | some (_, name) => .error (.missingValue name)
      | none => .ok {}
  | arg :: rest =>
      match pending with
      | some (s, name) => do
          let given ← setting s name arg
          return (← read specs none rest).add given
      | none =>
          match shape arg with
          | .operand => .ok { operands := arg :: rest }
          | .terminator => .ok { operands := rest }
          | .malformed => .error (.malformed arg)
          | .option name value =>
              match find? specs name with
              | none => .error (.undefined name)
              | some s =>
                  match value, s.kind with
                  | some value, _ => do
                      let given ← setting s name value
                      return (← read specs none rest).add given
                  | none, .toggle => do
                      let given ← setting s name "true"
                      return (← read specs none rest).add given
                  | none, _ => read specs (some (s, name)) rest

def usedAs (a : Arguments) (s : OptionSpec) (byLetter : Bool) : Bool :=
  a.settings.any fun given => given.name = s.name && given.byLetter == byLetter

/-- Reads the arguments; an option may not be given under both its names. -/
def parse (specs : List OptionSpec) (args : List Text) : Except Error Arguments := do
  let a ← read specs none args
  match specs.find? fun s => usedAs a s false && usedAs a s true with
  | some s => .error (.twoForms (s.letter.getD 0) s.name)
  | none => return a

end ArithAsm.Options.Leading
