import ArithAsm.Yaml.Node
import ArithAsm.Text.Numeral
import ArithAsm.Duration

/-!
Reading typed values out of YAML nodes. What a plain scalar stands for depends
on its spelling; a quoted one is always a text. Null leaves a single value as
it was and empties a list.
-/

namespace ArithAsm.Yaml

/-- What a scalar stands for. -/
inductive Meaning where
  | null
  | boolean (value : Bool)
  | integer (value : Int)
  | float (value : Float)
  | text

namespace Meaning

def nulls : List String := ["", "~", "null", "Null", "NULL"]
def truths : List String := ["true", "True", "TRUE"]
def falsehoods : List String := ["false", "False", "FALSE"]
def notNumbers : List String := [".nan", ".NaN", ".NAN"]
def infinities : List String := [".inf", ".Inf", ".INF", "+.inf", "+.Inf", "+.INF"]
def negativeInfinities : List String := ["-.inf", "-.Inf", "-.INF"]

def infinity : Float := 1.0 / 0.0

/-- An exponent mark with its exponent, or nothing at all. -/
def exponent? (cs : List Char) : Option Int :=
  match cs with
  | [] => some 0
  | mark :: rest =>
      if mark = 'e' ∨ mark = 'E' then
        let negative := rest.head? = some '-'
        let digits := if negative ∨ rest.head? = some '+' then rest.tail else rest
        if digits ≠ [] ∧ digits.all Char.isDigit then
          let size : Int := Decimal.value (Text.ofChars digits)
          some (if negative then -size else size)
        else none
      else none

/-- The number `mantissa * 10 ^ exponent`, unless it is too large. -/
def scientific? (mantissa : Nat) (exponent : Int) : Option Float :=
  let digits := (Decimal.ofNat mantissa).length
  if mantissa = 0 ∨ exponent + digits < -400 then some 0.0
  else if exponent > 400 then none
  else
    let x := Float.ofScientific mantissa (exponent < 0) exponent.natAbs
    if x.isInf then none else some x

/-- A decimal number with a point, an exponent, or both or neither. -/
def decimal? (cs : List Char) : Option Float := do
  let negative := cs.head? = some '-'
  let cs := if negative ∨ cs.head? = some '+' then cs.tail else cs
  let whole := cs.takeWhile Char.isDigit
  let rest := cs.drop whole.length
  let hasPoint := rest.head? = some '.'
  let places := if hasPoint then rest.tail.takeWhile Char.isDigit else []
  let rest := if hasPoint then rest.drop (places.length + 1) else rest
  guard (whole ≠ [] ∨ places ≠ [])
  let exponent ← exponent? rest
  let x ← scientific? (Decimal.value (Text.ofChars (whole ++ places))) (exponent - places.length)
  return if negative then -x else x

/-- The meaning of something that starts like a number. Underscores do not
count. -/
def ofNumber (cs : List Char) : Meaning :=
  let cs := cs.filter (· ≠ '_')
  let t := Text.ofChars cs
  match Numeral.signed t, Numeral.unsigned t, decimal? cs with
  | .ok n, _, _ => integer n
  | _, .ok n, _ => integer n
  | _, _, some x => float x
  | _, _, none => text

def ofPlain (cs : List Char) : Meaning :=
  let spelled (names : List String) : Bool := names.contains (String.ofList cs)
  if spelled nulls then null
  else if spelled truths then boolean true
  else if spelled falsehoods then boolean false
  else if spelled notNumbers then float (0.0 / 0.0)
  else if spelled infinities then float infinity
  else if spelled negativeInfinities then float (-infinity)
  else
    match cs with
    | '.' :: _ =>
        match decimal? cs with
        | some x => float x
        | none => text
    | c :: _ => if c.isDigit || c == '+' || c == '-' then ofNumber cs else text
    | [] => null

def ofScalar (cs : List Char) (isPlain : Bool) : Meaning :=
  if isPlain then ofPlain cs else text

end Meaning

/-- A float as a whole number, cut off toward zero. Too large a number is
refused, and one below the range becomes the least word. -/
def truncated? (x : Float) : Option Int :=
  let bound : Float := 9223372036854775808.0
  if x < bound then some x.toInt64.toInt
  else if x == bound then some (-(Numeral.signedLimit : Int))
  else none

namespace Node

/-- A text field takes any scalar but null, by its spelling. -/
def text? : Node → Except Error (Option Text)
  | .scalar cs isPlain =>
      match Meaning.ofScalar cs isPlain with
      | .null => .ok none
      | _ => .ok (some (Text.ofChars cs))
  | _ => .error .wrongType

def integer? : Node → Except Error (Option Int)
  | .scalar cs isPlain =>
      match Meaning.ofScalar cs isPlain with
      | .null => .ok none
      | .integer n => if n < Numeral.signedLimit then .ok (some n) else .error .wrongType
      | .float x =>
          match truncated? x with
          | some n => .ok (some n)
          | none => .error .wrongType
      | _ => .error .wrongType
  | _ => .error .wrongType

def affirmations : List String := ["y", "Y", "yes", "on"]
def negations : List String := ["n", "N", "no", "off"]

def boolean? : Node → Except Error (Option Bool)
  | .scalar cs isPlain =>
      match Meaning.ofScalar cs isPlain with
      | .null => .ok none
      | .boolean b => .ok (some b)
      | .text =>
          if affirmations.contains (String.ofList cs) then .ok (some true)
          else if negations.contains (String.ofList cs) then .ok (some false)
          else .error .wrongType
      | _ => .error .wrongType
  | _ => .error .wrongType

def duration? : Node → Except Error (Option Duration)
  | .scalar cs isPlain =>
      match Meaning.ofScalar cs isPlain with
      | .null => .ok none
      | .text =>
          match Duration.ofText? (Text.ofChars cs) with
          | some d => .ok (some d)
          | none => .error .wrongType
      | _ => .error .wrongType
  | _ => .error .wrongType

/-- A list of values; null items are left out. -/
def list {α : Type} (item? : Node → Except Error (Option α)) : Node → Except Error (List α)
  | .sequence items => do return (← items.mapM item?).reduceOption
  | .scalar cs isPlain =>
      match Meaning.ofScalar cs isPlain with
      | .null => .ok []
      | _ => .error .wrongType
  | .mapping _ => .error .wrongType

def keyText : Node → Except Error Text
  | .scalar cs _ => .ok (Text.ofChars cs)
  | _ => .error .wrongType

/-- The entries of a mapping by key. Keys are scalars and no two of them are
spelled alike. -/
def fields : List (Node × Node) → Except Error (List (Text × Node))
  | [] => .ok []
  | (key, value) :: rest => do
      let name ← keyText key
      let others ← fields rest
      if others.any (·.1 == name) then .error .duplicateKey
      else return (name, value) :: others

/-- The fields of a record. Null stands for a record without fields. -/
def record? : Node → Except Error (Option (List (Text × Node)))
  | .mapping entries => do return some (← fields entries)
  | .scalar cs isPlain =>
      match Meaning.ofScalar cs isPlain with
      | .null => .ok none
      | _ => .error .wrongType
  | .sequence _ => .error .wrongType

/-- Reads a field if it is present. -/
def field {α : Type} (fields : List (Text × Node)) (name : String)
    (read : Node → Except Error (Option α)) : Except Error (Option α) :=
  match fields.lookup (Text.ofString name) with
  | some node => read node
  | none => .ok none

end Node

end ArithAsm.Yaml
