import ArithAsm.Text.Hex
import ArithAsm.Text.Numeral

/-!
Writing a number in hexadecimal and reading it back. The written form is a run of
digits that stand for the number. It has the width asked for unless the number needs
more digits than that.
-/

namespace ArithAsm.Hex

theorem digitValue?_digit (letters : Letters) {d : Nat} (h : d < 16) :
    Numeral.digitValue? 16 (digit letters d) = some d := by
  have hdigits : ∀ d < 16, Numeral.digitValue? 16 (digit letters d) = some d := by
    cases letters <;> decide
  exact hdigits d h

/-- The number that digits stand for when they follow others that stand for `high`. -/
def value (high : Nat) (ds : List Nat) : Nat :=
  ds.foldl (fun high d => high * 16 + d) high

theorem value_append_digit (high : Nat) (ds : List Nat) (d : Nat) :
    value high (ds ++ [d]) = value high ds * 16 + d := by
  simp [value]

/-- The text is a run of digits that stands for the number. -/
def Denotes (letters : Letters) (t : Text) (n : Nat) : Prop :=
  ∃ ds : List Nat, t = ds.map (digit letters) ∧ (∀ d ∈ ds, d < 16) ∧ value 0 ds = n

theorem Denotes.snoc {letters : Letters} {t : Text} {n : Nat} (h : Denotes letters t (n / 16)) :
    Denotes letters (t ++ [digit letters (n % 16)]) n := by
  obtain ⟨ds, rfl, hds, hvalue⟩ := h
  refine ⟨ds ++ [n % 16], by simp, ?_, ?_⟩
  · intro d hd
    rcases List.mem_append.mp hd with hd | hd
    · exact hds d hd
    · rw [List.mem_singleton.mp hd]
      exact Nat.mod_lt n (by decide)
  · rw [value_append_digit, hvalue]
    omega

theorem denotes_ofNat (letters : Letters) (width n : Nat) :
    Denotes letters (ofNat letters width n) n := by
  fun_induction ofNat letters width n with
  | case1 => exact ⟨[], rfl, by simp, rfl⟩
  | case2 n _ ih => exact ih.snoc
  | case3 width n ih => exact ih.snoc

/-- The number has at most `width` digits. -/
def Fits : Nat → Nat → Prop
  | 0, n => n = 0
  | width + 1, n => Fits width (n / 16)

theorem length_ofNat (letters : Letters) {width n : Nat} (h : Fits width n) :
    (ofNat letters width n).length = width := by
  induction width generalizing n with
  | zero =>
      obtain rfl : n = 0 := h
      rw [ofNat, if_pos rfl, List.length_nil]
  | succ width ih => rw [ofNat, List.length_append, ih h, List.length_singleton]

end ArithAsm.Hex
