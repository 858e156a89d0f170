import ArithAsm.Text

/-!
Hexadecimal digits with a least width, in either case.
-/

namespace ArithAsm.Hex

inductive Letters where
  | lower
  | upper

def digit (letters : Letters) (n : Nat) : UInt8 :=
  if n < 10 then UInt8.ofNat (48 + n)
  else
    match letters with
    | .lower => UInt8.ofNat (87 + n)
    | .upper => UInt8.ofNat (55 + n)

/-- At least `width` digits, and more when the number needs them. -/
def ofNat (letters : Letters) : Nat → Nat → Text
  | 0, n => if n = 0 then [] else ofNat letters 0 (n / 16) ++ [digit letters (n % 16)]
  | width + 1, n => ofNat letters width (n / 16) ++ [digit letters (n % 16)]
termination_by width n => (width, n)

end ArithAsm.Hex
