import ArithAsm.Text

/-!
Numbers in decimal. `ofNat` writes a number without leading zeros; `value`
reads a run of digits of any length, leading zeros included.
-/

namespace ArithAsm.Decimal

def digit (n : Nat) : UInt8 :=
  UInt8.ofNat (48 + n)

def isDigit (b : UInt8) : Bool :=
  48 ≤ b && b ≤ 57

def digitValue (b : UInt8) : Nat :=
  b.toNat - 48

def ofNat (n : Nat) : Text :=
  if n < 10 then [digit n] else ofNat (n / 10) ++ [digit (n % 10)]
termination_by n

/-- The number with a minus sign in front when it is negative. -/
def ofInt (n : Int) : Text :=
  if n < 0 then 45 :: ofNat n.natAbs else ofNat n.natAbs

theorem ofString_digitChar {n : Nat} (h : n < 10) :
    Text.ofString (String.singleton n.digitChar) = [digit n] := by
  revert n
  decide

theorem ofNat_eq_toString (n : Nat) : ofNat n = Text.ofString (toString n) := by
  fun_induction ofNat n with
  | case1 n h => rw [Nat.toString_eq_repr, Nat.repr_of_lt h, ofString_digitChar h]
  | case2 n h ih =>
      have hten : 10 ≤ n := Nat.le_of_not_lt h
      have hlast : n % 10 < 10 := Nat.mod_lt n (by decide)
      rw [ih, Nat.toString_eq_repr, Nat.toString_eq_repr, Nat.repr_of_ge hten,
        Text.ofString_append, ofString_digitChar hlast]

theorem ofInt_natCast (n : Nat) : ofInt n = Text.ofString (toString n) := by
  have hsign : ¬ (n : Int) < 0 := by omega
  rw [ofInt, if_neg hsign, Int.natAbs_natCast, ofNat_eq_toString]

def value (digits : Text) : Nat :=
  digits.foldl (fun n b => n * 10 + digitValue b) 0

/-- The digits at the front of a text. -/
def leading (t : Text) : Text :=
  t.takeWhile isDigit

end ArithAsm.Decimal
