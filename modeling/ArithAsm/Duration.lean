import ArithAsm.Text.Decimal

/-!
Lengths of time in whole nanoseconds, within the range of a signed 64-bit
number. They are written and read as numbers with units, such as `1h2m3.5s`.
-/

namespace ArithAsm

structure Duration where
  nanoseconds : Int
  deriving DecidableEq, Repr

namespace Duration

def millisecond : Nat := 1000000
def second : Nat := 1000000000

/-- One more than the longest duration. -/
def limit : Nat := 9223372036854775808

/-- The nearest whole number of milliseconds; halves go away from zero. A
result out of range stops at the end of the range. -/
def roundToMillisecond (d : Duration) : Duration :=
  let size := d.nanoseconds.natAbs
  let rest := size % millisecond
  let rounded : Int := if 2 * rest < millisecond then size - rest else size - rest + millisecond
  let signed := if d.nanoseconds < 0 then -rounded else rounded
  ⟨max (-(limit : Int)) (min ((limit : Int) - 1) signed)⟩

/-- A point and the digits of a fraction of `10 ^ places`, without the zeros at
its end; nothing if the fraction is zero. -/
def fractionText : Nat → Nat → Text
  | 0, _ => []
  | places + 1, n =>
      if n = 0 then []
      else if n % 10 = 0 then fractionText places (n / 10)
      else
        let digits := Decimal.ofNat n
        46 :: (List.replicate (places + 1 - digits.length) 48 ++ digits)

/-- A size as a multiple of a unit of `10 ^ places` nanoseconds. -/
def inUnit (places n : Nat) (unit : Text) : Text :=
  let size := Nat.pow 10 places
  Decimal.ofNat (n / size) ++ fractionText places (n % size) ++ unit

def sizeText (n : Nat) : Text :=
  if n = 0 then "0s"
  else if n < 1000 then inUnit 0 n "ns"
  else if n < millisecond then inUnit 3 n "µs"
  else if n < second then inUnit 6 n "ms"
  else
    let minutes := n / (60 * second)
    let hours := minutes / 60
    (if hours > 0 then Decimal.ofNat hours ++ "h" else []) ++
      (if minutes > 0 then Decimal.ofNat (minutes % 60) ++ "m" else []) ++
      inUnit 9 (n % (60 * second)) "s"

def text (d : Duration) : Text :=
  if d.nanoseconds < 0 then 45 :: sizeText d.nanoseconds.natAbs
  else sizeText d.nanoseconds.natAbs

def unit? (name : Text) : Option Nat :=
  if name = "ns" then some 1
  else if name = "us" ∨ name = "µs" ∨ name = "μs" then some 1000
  else if name = "ms" then some millisecond
  else if name = "s" then some second
  else if name = "m" then some (60 * second)
  else if name = "h" then some (3600 * second)
  else none

/-- The digits after a point as a numerator and the power of ten below it.
Digits that would push the numerator over 63 bits are dropped. -/
def fraction (digits : Text) : Nat × Nat :=
  let step (acc : Nat × Nat × Bool) (b : UInt8) : Nat × Nat × Bool :=
    let (numerator, places, full) := acc
    let next := numerator * 10 + Decimal.digitValue b
    if full ∨ numerator > (limit - 1) / 10 ∨ next > limit then (numerator, places, true)
    else (next, places + 1, false)
  let (numerator, places, _) := digits.foldl step (0, 0, false)
  (numerator, places)

/-- A power of ten, rounded after every factor. -/
def powerOfTen : Nat → Float
  | 0 => 1
  | places + 1 => powerOfTen places * 10

/-- A fraction of a unit in whole nanoseconds, computed in floating point. -/
def scaled (numerator places unit : Nat) : Nat :=
  (numerator.toFloat * (unit.toFloat / powerOfTen places)).toUInt64.toNat

def isNumberByte (b : UInt8) : Bool :=
  b == 46 || Decimal.isDigit b

/-- One number with its unit, in nanoseconds, and the text after it. -/
def term? (t : Text) : Option (Nat × Text) := do
  let whole := Decimal.leading t
  let rest := t.drop whole.length
  let digits := match rest with
    | 46 :: rest => Decimal.leading rest
    | _ => []
  let rest := match rest with
    | 46 :: rest => rest.drop digits.length
    | rest => rest
  guard (whole ≠ [] ∨ digits ≠ [])
  guard (Decimal.value whole ≤ limit)
  let name := rest.takeWhile (!isNumberByte ·)
  let unit ← unit? name
  guard (Decimal.value whole ≤ limit / unit)
  let (numerator, places) := fraction digits
  let size := Decimal.value whole * unit + scaled numerator places unit
  guard (size ≤ limit)
  return (size, rest.drop name.length)

/-- The sum of the terms of a text. Every term uses up at least one byte, so
the length of the text bounds their number. -/
def terms? : Nat → Nat → Text → Option Nat
  | _, total, [] => some total
  | 0, _, _ => none
  | fuel + 1, total, t => do
      let (size, rest) ← term? t
      guard (total + size ≤ limit)
      terms? fuel (total + size) rest

def ofUnsigned? (negative : Bool) (t : Text) : Option Duration := do
  if t = "0" then return ⟨0⟩
  guard (t ≠ [])
  let total ← terms? t.length 0 t
  if negative then return ⟨-total⟩
  guard (total < limit)
  return ⟨total⟩

/-- An optional sign and terms such as `1.5h`, or a bare zero. -/
def ofText? (t : Text) : Option Duration :=
  match t with
  | 45 :: rest => ofUnsigned? true rest
  | 43 :: rest => ofUnsigned? false rest
  | t => ofUnsigned? false t

end Duration

end ArithAsm
