import Mathlib.Data.List.DropRight
import ArithAsm.Location
import ArithAsm.Proofs.Runes

/-!
Where a text ends. A location is kept up to date rune by rune; here it is said
what it amounts to in terms of the bytes passed: the newlines among them, the
runes since the last newline, and their number.
-/

namespace ArithAsm

namespace Rune

/-- A newline is the byte of that name, which occurs in no other rune. -/
theorem newline_cases {t : Text} {r : Rune} (h : r ∈ t.runes) :
    (r.char = '\n' ∧ r.bytes = [Text.newline]) ∨
      (r.char ≠ '\n' ∧ Text.newline ∉ r.bytes) := by
  rcases Text.mem_runes_cases h with ⟨b, hb, rfl⟩ | ⟨hchar, hbytes⟩
  · by_cases hnl : b = Text.newline
    · subst hnl
      exact .inl ⟨rfl, rfl⟩
    · refine .inr ⟨?_, by simpa [ofAscii, eq_comm] using hnl⟩
      intro hchar
      have hnat := congrArg Char.toNat hchar
      rw [ofAscii, toNat_ofNat (isValidChar_of_ascii hb)] at hnat
      exact hnl (UInt8.toNat_inj.mp hnat)
  · refine .inr ⟨?_, ?_⟩
    · intro hnl
      rw [hnl] at hchar
      exact absurd hchar (by decide)
    · intro hnl
      exact absurd (hbytes _ hnl) (by decide)

end Rune

namespace Text

/-- The text after the last newline. -/
def lastLine (t : Text) : Text :=
  t.rtakeWhile (· ≠ newline)

theorem lastLine_append_of_mem {t : Text} (h : newline ∈ t) (before : Text) :
    (before ++ t).lastLine = t.lastLine := by
  induction t using List.reverseRecOn with
  | nil => cases h
  | append_singleton t b ih =>
      rw [← List.append_assoc, lastLine, lastLine, List.rtakeWhile_concat,
        List.rtakeWhile_concat]
      by_cases hb : b = newline
      · simp [hb]
      · have hmem : newline ∈ t := by simpa [Ne.symm hb] using h
        simpa [hb, lastLine] using ih hmem

theorem lastLine_append_of_not_mem {t : Text} (h : newline ∉ t) (before : Text) :
    (before ++ t).lastLine = before.lastLine ++ t := by
  induction t using List.reverseRecOn with
  | nil => simp
  | append_singleton t b ih =>
      simp only [List.mem_append, List.mem_singleton, not_or] at h
      have hb : b ≠ newline := Ne.symm h.2
      rw [← List.append_assoc, lastLine, List.rtakeWhile_concat_pos _ _ _ (by simpa using hb),
        ← lastLine, ih h.1, List.append_assoc]

theorem lastLine_of_not_mem {t : Text} (h : newline ∉ t) : t.lastLine = t :=
  lastLine_append_of_not_mem h []

end Text

namespace Location

open Text

/-- The location at the end of a text: the line after its newlines, the column
after the runes of its last line, the offset of its length. -/
def after (t : Text) : Location :=
  ⟨t.count newline + 1, t.lastLine.runeCount + 1, t.length⟩

/-- Passing the runes of a text, from anywhere. The column goes on from where it
was only if the text stays on one line. -/
theorem past_runes (loc : Location) (t : Text) :
    loc.past t.runes =
      ⟨loc.line + t.count newline,
        if newline ∈ t then t.lastLine.runeCount + 1 else loc.column + t.runeCount,
        loc.offset + t.length⟩ := by
  induction t using runes_induction generalizing loc with
  | nil => simp [past, runeCount]
  | cons r t hrunes ih =>
      have hpast : loc.past (runes (r.bytes ++ t)) = (loc.advance r).past t.runes := by
        rw [hrunes]
        rfl
      have hcount : runeCount (r.bytes ++ t) = t.runeCount + 1 := by
        rw [runeCount, hrunes]
        rfl
      have hmem : r ∈ runes (r.bytes ++ t) := by simp [hrunes]
      rw [hpast, ih]
      rcases Rune.newline_cases hmem with ⟨hchar, hbytes⟩ | ⟨hchar, hbytes⟩
      · simp only [advance, hchar, if_true, hbytes, Rune.width]
        by_cases ht : newline ∈ t
        · rw [lastLine_append_of_mem ht]
          simp [ht]
          omega
        · have hempty : lastLine [newline] = [] := rfl
          rw [lastLine_append_of_not_mem ht, hempty]
          simp [ht]
          omega
      · simp only [advance, hchar, if_false, Rune.width, hcount]
        by_cases ht : newline ∈ t
        · rw [lastLine_append_of_mem ht]
          simp [ht, List.count_eq_zero_of_not_mem hbytes]
          omega
        · simp [ht, hbytes, List.count_eq_zero_of_not_mem hbytes]
          omega

/-- What passes the first runes of a text ends up where these runes end. -/
theorem past_start_eq_after {t : Text} {rs rs' : List Rune} (h : t.runes = rs ++ rs') :
    start.past rs = after (ofRunes rs) := by
  have hrs := (runes_of_append h).1
  conv => lhs; rw [← hrs]
  rw [past_runes, after, start]
  by_cases hmem : newline ∈ ofRunes rs
  · simp [hmem]
    omega
  · simp [hmem, lastLine_of_not_mem hmem]
    omega

end Location

end ArithAsm
