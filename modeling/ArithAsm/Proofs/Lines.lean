import ArithAsm.Proofs.Decimal
import ArithAsm.Proofs.Hexadecimal
import ArithAsm.Proofs.Runes

/-!
Texts cut into pieces at a separator, above all into lines. A piece contains no
separator, and there is one piece more than there are separators. What is
written out of digits and single characters stays on one line.
-/

namespace ArithAsm

namespace Text

section Pieces

variable {separator : UInt8}

theorem length_splitOn (t : Text) : (splitOn separator t).length = t.count separator + 1 := by
  induction t with
  | nil => rfl
  | cons b t ih =>
      by_cases hb : b = separator
      · simp [splitOn, hb, ih]
      · rw [splitOn, if_neg hb, List.count_cons_of_ne hb]
        split
        · rename_i hpieces
          rw [hpieces] at ih
          cases ih
        · rename_i piece pieces hpieces
          rw [hpieces] at ih
          exact ih

theorem splitOn_of_not_mem {t : Text} (h : separator ∉ t) : splitOn separator t = [t] := by
  induction t with
  | nil => rfl
  | cons b t ih =>
      simp only [List.mem_cons, not_or] at h
      rw [splitOn, if_neg (Ne.symm h.1), ih h.2]

/-- At a separator the pieces of a text fall into those before and those after it. -/
theorem splitOn_append_separator (s t : Text) :
    splitOn separator (s ++ separator :: t) = splitOn separator s ++ splitOn separator t := by
  induction s with
  | nil => exact if_pos rfl
  | cons b s ih =>
      rw [List.cons_append, splitOn, splitOn, ih]
      by_cases hb : b = separator
      · rw [if_pos hb, if_pos hb, List.cons_append]
      · rw [if_neg hb, if_neg hb]
        cases hpieces : splitOn separator s with
        | nil =>
            have hlength : (splitOn separator s).length = s.count separator + 1 := length_splitOn s
            rw [hpieces] at hlength
            cases hlength
        | cons piece pieces => rfl

/-- A piece and its separator come off the front of a text. -/
theorem splitOn_append_cons {piece : Text} (h : separator ∉ piece) (rest : Text) :
    splitOn separator (piece ++ separator :: rest) = piece :: splitOn separator rest := by
  rw [splitOn_append_separator, splitOn_of_not_mem h, List.singleton_append]

end Pieces

/-- A text that has no newline. -/
def OneLine (t : Text) : Prop :=
  newline ∉ t

instance (t : Text) : Decidable t.OneLine :=
  inferInstanceAs (Decidable (newline ∉ t))

theorem OneLine.append {s t : Text} (hs : s.OneLine) (ht : t.OneLine) : OneLine (s ++ t) := by
  intro h
  rcases List.mem_append.mp h with h | h
  · exact hs h
  · exact ht h

theorem oneLine_joinWith {separator : Text} (hseparator : separator.OneLine) {ts : List Text}
    (h : ∀ t ∈ ts, t.OneLine) : (joinWith separator ts).OneLine := by
  fun_induction joinWith separator ts with
  | case1 => exact List.not_mem_nil
  | case2 t => exact h t List.mem_cons_self
  | case3 t rest _ ih =>
      have hrest := ih fun t' ht' => h t' (List.mem_cons_of_mem t ht')
      exact ((h t List.mem_cons_self).append hseparator).append hrest

theorem oneLine_of_lt {t : Text} (h : ∀ b ∈ t, newline < b) : t.OneLine := by
  intro hmem
  exact absurd (h _ hmem) (UInt8.lt_irrefl _)

end Text

theorem Decimal.oneLine_ofNat (n : Nat) : (Decimal.ofNat n).OneLine := by
  apply Text.oneLine_of_lt
  intro b hb
  have hdigit := Decimal.bounds_of_isDigit (Decimal.isDigit_of_mem_ofNat hb)
  exact UInt8.lt_of_lt_of_le (by decide) hdigit.1

theorem Decimal.oneLine_ofInt (n : Int) : (Decimal.ofInt n).OneLine := by
  have hnat := Decimal.oneLine_ofNat n.natAbs
  unfold Decimal.ofInt
  split
  · exact List.not_mem_cons_of_ne_of_not_mem (by decide) hnat
  · exact hnat

theorem Hex.oneLine_ofNat (letters : Hex.Letters) (width n : Nat) :
    (Hex.ofNat letters width n).OneLine := by
  have hdigit : ∀ d < 16, Hex.digit letters d ≠ Text.newline := by
    cases letters <;> decide
  obtain ⟨ds, hdigits, hbound, _⟩ := Hex.denotes_ofNat letters width n
  rw [hdigits]
  intro hnewline
  obtain ⟨d, hd, heq⟩ := List.mem_map.mp hnewline
  exact hdigit d (hbound d hd) heq

end ArithAsm
