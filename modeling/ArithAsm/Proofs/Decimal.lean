import ArithAsm.Text.Decimal

/-!
Writing a number in decimal and reading it back. The written form is a run of
digits, and its value is the number.
-/

namespace ArithAsm.Decimal

theorem bounds_of_isDigit {b : UInt8} (h : isDigit b = true) : 48 ≤ b ∧ b ≤ 57 := by
  simpa only [isDigit, Bool.and_eq_true, decide_eq_true_eq] using h

theorem isDigit_digit {n : Nat} (h : n < 10) : isDigit (digit n) = true := by
  revert n
  decide

theorem digitValue_digit {n : Nat} (h : n < 10) : digitValue (digit n) = n := by
  revert n
  decide

theorem ofNat_ne_nil (n : Nat) : ofNat n ≠ [] := by
  unfold ofNat
  split <;> simp

theorem isDigit_of_mem_ofNat {n : Nat} {b : UInt8} (h : b ∈ ofNat n) : isDigit b = true := by
  fun_induction ofNat n with
  | case1 n hn =>
      obtain rfl := List.mem_singleton.mp h
      exact isDigit_digit hn
  | case2 n hn ih =>
      rcases List.mem_append.mp h with hfront | hlast
      · exact ih hfront
      · obtain rfl := List.mem_singleton.mp hlast
        exact isDigit_digit (Nat.mod_lt n (by decide))

@[simp] theorem value_append_digit (t : Text) (b : UInt8) :
    value (t ++ [b]) = value t * 10 + digitValue b := by
  simp [value]

theorem value_ofNat (n : Nat) : value (ofNat n) = n := by
  fun_induction ofNat n with
  | case1 n hn => simpa [value] using digitValue_digit hn
  | case2 n hn ih =>
      rw [value_append_digit, ih, digitValue_digit (Nat.mod_lt n (by decide))]
      omega

end ArithAsm.Decimal
