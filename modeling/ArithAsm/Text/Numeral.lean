import ArithAsm.Text.Decimal

/-!
Whole numbers with an optional sign and an optional base mark: `0x`, `0o` or
`0b`, or a leading zero alone, which means octal. Underscores may separate
digits. Values are bounded by 64-bit words.
-/

namespace ArithAsm.Numeral

inductive Error where
  | malformed
  | outOfRange
  deriving DecidableEq, Repr

/-- The value of a digit in bases up to sixteen, letters in either case. -/
def digitValue? (base : Nat) (b : UInt8) : Option Nat :=
  let value :=
    if Decimal.isDigit b then b.toNat - 48
    else if 97 ≤ b ∧ b ≤ 102 then b.toNat - 87
    else if 65 ≤ b ∧ b ≤ 70 then b.toNat - 55
    else 16
  if value < base then some value else none

/-- Reads digits from left to right and passes over underscores. The first
byte that is no digit, or that takes the value out of range, decides the
error. -/
def digits (base : Nat) : Nat → Text → Except Error Nat
  | n, [] => .ok n
  | n, 95 :: rest => digits base n rest
  | n, b :: rest =>
      match digitValue? base b with
      | none => .error .malformed
      | some d =>
          if UInt64.size ≤ n * base + d then .error .outOfRange
          else digits base (n * base + d) rest

/-- Underscores stand between digits or right after a base mark, never at the
end and never next to each other. `allowed` says whether one may come next. -/
def underscoresPlaced (allowed : Bool) : Text → Bool
  | [] => true
  | 95 :: rest => allowed && !rest.isEmpty && underscoresPlaced false rest
  | _ :: rest => underscoresPlaced true rest

/-- The base of a number without a sign, whether a mark or a zero precedes the
digits, and the digits. -/
def split (t : Text) : Nat × Bool × Text :=
  match t with
  | 48 :: mark :: rest =>
      if mark = 120 ∨ mark = 88 then (16, true, rest)
      else if mark = 111 ∨ mark = 79 then (8, true, rest)
      else if mark = 98 ∨ mark = 66 then (2, true, rest)
      else (8, true, mark :: rest)
  | t => (10, false, t)

/-- A number without a sign, below 2^64. -/
def unsigned (t : Text) : Except Error Nat :=
  let (base, marked, rest) := split t
  match digits base 0 rest with
  | .error e => .error e
  | .ok n =>
      if rest.all (· = 95) ∨ ¬ underscoresPlaced marked rest then .error .malformed else .ok n

/-- The number of negative words. -/
def signedLimit : Nat := 9223372036854775808

/-- A number with an optional sign that fits a signed 64-bit word. -/
def signed (t : Text) : Except Error Int :=
  match t with
  | 45 :: rest =>
      match unsigned rest with
      | .error e => .error e
      | .ok n => if n ≤ signedLimit then .ok (-n) else .error .outOfRange
  | t =>
      let rest := if t.head? = some 43 then t.tail else t
      match unsigned rest with
      | .error e => .error e
      | .ok n => if n < signedLimit then .ok n else .error .outOfRange

end ArithAsm.Numeral
