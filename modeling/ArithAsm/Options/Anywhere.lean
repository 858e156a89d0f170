import ArithAsm.Options

/-!
Arguments whose options may stand anywhere. Names follow two dashes and letters
one; letters can be joined, the last of them with its value. A pair of dashes
ends the options.
-/

namespace ArithAsm.Options.Anywhere

inductive Error where
  | malformed (arg : Text)
  | unknownName (name : Text)
  | unknownLetter (letter : UInt8) (letters : Text)
  | missingValue (arg : Text)
  | missingLetterValue (letter : UInt8) (letters : Text)
  | invalidToggle (value : Text) (spec : OptionSpec)
  | invalidInteger (value : Text) (spec : OptionSpec) (reason : Numeral.Error)
  deriving DecidableEq, Repr

/-- An option by its letter, if it has one, and its name. -/
def label (s : OptionSpec) : Text :=
  match s.letter with
  | some b => "-" ++ [b] ++ ", --" ++ Text.ofString s.name
  | none => "--" ++ Text.ofString s.name

def letterText (b : UInt8) : Text :=
  Quoted.ofChar (Char.ofNat b.toNat)

def Error.message : Error → Text
  | malformed arg => "bad flag syntax: " ++ arg
  | unknownName name => "unknown flag: --" ++ name
  | unknownLetter letter letters =>
      "unknown shorthand flag: " ++ letterText letter ++ " in -" ++ letters
  | missingValue arg => "flag needs an argument: " ++ arg
  | missingLetterValue letter letters =>
      "flag needs an argument: " ++ letterText letter ++ " in -" ++ letters
  | invalidToggle value s =>
      "invalid argument " ++ Quoted.ofText value ++ " for " ++ Quoted.ofText (label s) ++
        " flag: strconv.ParseBool: parsing " ++ Quoted.ofText value ++ ": invalid syntax"
  | invalidInteger value s reason =>
      "invalid argument " ++ Quoted.ofText value ++ " for " ++ Quoted.ofText (label s) ++
        " flag: " ++ integerMessage reason

def byName? (specs : List OptionSpec) (name : Text) : Option OptionSpec :=
  specs.find? fun s => Text.ofString s.name == name

def byLetter? (specs : List OptionSpec) (letter : UInt8) : Option OptionSpec :=
  specs.find? fun s => s.letter == some letter

def setting (s : OptionSpec) (byLetter : Bool) (value : Text) : Except Error Setting :=
  match s.kind with
  | .text => .ok ⟨s.name, byLetter, .text value⟩
  | .integer =>
      match Numeral.signed value with
      | .ok n => .ok ⟨s.name, byLetter, .integer n⟩
      | .error reason => .error (.invalidInteger value s reason)
  | .toggle =>
      match toggleValue? value with
      | some b => .ok ⟨s.name, byLetter, .toggle b⟩
      | none => .error (.invalidToggle value s)

/-- A named option without its dashes. The answer tells whether the next
argument was used as its value. -/
def long (specs : List OptionSpec) (body : Text) (next : Option Text) :
    Except Error (Setting × Bool) :=
  let (name, value) := splitValue body
  if body = [] ∨ body.head? = some 45 ∨ name = [] then .error (.malformed ("--" ++ body))
  else
    match byName? specs name with
    | none => .error (.unknownName name)
    | some s =>
        match value, s.kind == OptionKind.toggle, next with
        | some value, _, _ => do return (← setting s false value, false)
        | none, true, _ => do return (← setting s false "true", false)
        | none, false, some next => do return (← setting s false next, true)
        | none, false, none => .error (.missingValue ("--" ++ body))

/-- The letters after a single dash. Letters that start with `test.` are
ignored. -/
def short (specs : List OptionSpec) (next : Option Text) :
    Text → Except Error (List Setting × Bool)
  | [] => .ok ([], false)
  | letter :: more =>
      if (Text.ofString "test.").isPrefixOf (letter :: more) then .ok ([], false)
      else
        match byLetter? specs letter with
        | none => .error (.unknownLetter letter (letter :: more))
        | some s =>
            match more, s.kind == OptionKind.toggle, next with
            | 61 :: b :: value, _, _ => do return ([← setting s true (b :: value)], false)
            | more, true, _ => do
                let given ← setting s true "true"
                let (others, used) ← short specs next more
                return (given :: others, used)
            | b :: value, false, _ => do return ([← setting s true (b :: value)], false)
            | [], false, some next => do return ([← setting s true next], true)
            | [], false, none => .error (.missingLetterValue letter [letter])

/-- Reads arguments up to a pair of dashes. `skip` passes over an argument that
the option before it has used as its value. -/
def read (specs : List OptionSpec) (skip : Bool) : List Text → Except Error Arguments
  | [] => .ok {}
  | arg :: rest =>
      if skip then read specs false rest
      else
        match arg with
        | [45, 45] => .ok { operands := rest }
        | 45 :: 45 :: body => do
            let (given, used) ← long specs body rest.head?
            return (← read specs used rest).add given
        | 45 :: b :: letters => do
            let (given, used) ← short specs rest.head? (b :: letters)
            let a ← read specs used rest
            return { a with settings := given ++ a.settings }
        | arg => do return (← read specs false rest).addOperand arg

def parse (specs : List OptionSpec) (args : List Text) : Except Error Arguments :=
  read specs false args

end ArithAsm.Options.Anywhere
