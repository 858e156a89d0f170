import ArithAsm.Duration
import ArithAsm.Table
import ArithAsm.Proofs.Lines
import Mathlib.Data.List.Forall2

/-!
Tables can be read. Whatever way a table is drawn in, its words are what is left of it
without the lines: first the titles, then the cells below them, each from left to right.
This is so for the tables with lines between the columns, as long as every cell holds a
single word.
-/

namespace ArithAsm

namespace Table

/-- Spaces, newlines and other control characters keep words apart. -/
def isGap (b : UInt8) : Bool :=
  b ≤ 32

/-- What lines are drawn with, up to nothing at all. -/
def isDrawn (t : Text) : Bool :=
  t.all fun b => b == 43 || b == 45 || b == 124

/-- The words of a text that are not part of a drawing. -/
def words (t : Text) : List Text :=
  (Text.splitOn 32 (t.map fun b => if isGap b then 32 else b)).filter (!isDrawn ·)

def IsSolid (t : Text) : Prop :=
  t.all (!isGap ·) = true

instance (t : Text) : Decidable (IsSolid t) :=
  inferInstanceAs (Decidable (_ = true))

/-- A single word that cannot be taken for part of a drawing. -/
def IsWord (t : Text) : Prop :=
  IsSolid t ∧ isDrawn t = false

instance (t : Text) : Decidable (IsWord t) :=
  inferInstanceAs (Decidable (_ ∧ _))

/-- Drawn under the titles, any row of words can be read back. -/
def Legible (draw : (titles cells : List Text) → Text) (titles : List Text) : Prop :=
  ∀ cells, cells.length = titles.length → (∀ c ∈ cells, IsWord c) →
    words (draw titles cells) = titles ++ cells

section Words

variable {s t w : Text} {b : UInt8}

theorem IsSolid.not_isGap (h : IsSolid t) (hb : b ∈ t) : isGap b = false := by
  simpa using List.all_eq_true.mp h b hb

theorem IsWord.not_mem_of_isGap (h : IsWord w) (hb : isGap b = true) : b ∉ w := by
  intro hmem
  rw [h.1.not_isGap hmem] at hb
  cases hb

theorem IsSolid.append (hs : IsSolid s) (ht : IsSolid t) : IsSolid (s ++ t) := by
  rw [IsSolid, List.all_append, hs, ht]
  rfl

theorem IsWord.append (hs : IsWord s) (ht : IsSolid t) : IsWord (s ++ t) := by
  refine ⟨hs.1.append ht, ?_⟩
  have hdrawn := hs.2
  unfold isDrawn at hdrawn ⊢
  rw [List.all_append, hdrawn, Bool.false_and]

theorem IsSolid.append_word (hs : IsSolid s) (ht : IsWord t) : IsWord (s ++ t) := by
  refine ⟨hs.append ht.1, ?_⟩
  have hdrawn := ht.2
  unfold isDrawn at hdrawn ⊢
  rw [List.all_append, hdrawn, Bool.and_false]

/-- All about the words of a text comes down to this: a gap ends one word and begins
another. -/
theorem words_append_gap (h : isGap b = true) (s t : Text) :
    words (s ++ b :: t) = words s ++ words t := by
  unfold words
  rw [List.map_append, List.map_cons, if_pos h, Text.splitOn_append_separator, List.filter_append]

theorem splitOn_gaps (h : ∀ b ∈ t, isGap b = false) :
    Text.splitOn 32 (t.map fun b => if isGap b then 32 else b) = [t] := by
  have hmap : t.map (fun b => if isGap b then 32 else b) = t := by
    rw [List.map_congr_left (g := id) (fun b hb => by simp [h b hb]), List.map_id]
  have hspace : (32 : UInt8) ∉ t := fun hmem => absurd (h 32 hmem) (by decide)
  rw [hmap, Text.splitOn_of_not_mem hspace]

theorem words_of_isWord (h : IsWord w) : words w = [w] := by
  rw [words, splitOn_gaps fun b hb => h.1.not_isGap hb]
  simp [h.2]

theorem words_of_isDrawn (h : isDrawn t = true) : words t = [] := by
  have hgap : ∀ b ∈ t, isGap b = false := by
    intro b hb
    have hdrawn := List.all_eq_true.mp h b hb
    simp only [Bool.or_eq_true, beq_iff_eq] at hdrawn
    rcases hdrawn with (rfl | rfl) | rfl <;> decide
  rw [words, splitOn_gaps hgap]
  simp [h]

theorem words_spaces_append (n : Nat) (t : Text) : words (Text.spaces n ++ t) = words t := by
  have hnil : words [] = [] := words_of_isDrawn rfl
  induction n with
  | zero => rfl
  | succ n ih =>
      have hcons := words_append_gap (b := 32) (by decide) [] (Text.spaces n ++ t)
      rw [hnil, List.nil_append, List.nil_append, ih] at hcons
      exact hcons

theorem words_append_spaces (t : Text) (n : Nat) : words (t ++ Text.spaces n) = words t := by
  have hnil : words [] = [] := words_of_isDrawn rfl
  cases n with
  | zero => rw [Text.spaces, List.replicate_zero, List.append_nil]
  | succ n =>
      have hrest := words_spaces_append n []
      rw [List.append_nil, hnil] at hrest
      rw [Text.spaces, List.replicate_succ, words_append_gap (by decide)]
      change words t ++ words (Text.spaces n) = words t
      rw [hrest, List.append_nil]

end Words

section Placing

variable (width : Nat) (w : Text)

theorem words_center : words (center width w) = words w := by
  rw [center, words_append_spaces, words_spaces_append]

theorem words_align : words (align width w) = words w := by
  unfold align
  split
  · rw [alignRight, words_spaces_append]
  · rw [alignLeft, words_append_spaces]

end Placing

/-- A word is a cell of one line. -/
theorem lines_ofText {w : Text} (h : IsWord w) : (Cell.ofText w).lines = [w] := by
  have hnewline : Text.newline ∉ w := h.not_mem_of_isGap (by decide)
  have hspace : (32 : UInt8) ∉ w := h.not_mem_of_isGap (by decide)
  have hwidth : ∀ limit, lineWidth [w] ≤ [Width.ofText w].foldl max limit := by
    intro limit
    have hone : lineWidth [w] = Width.ofText w := by simp [lineWidth]
    rw [hone]
    exact Nat.le_max_right limit (Width.ofText w)
  have hwrap : ∀ limit, wrap limit w = [w] := by
    intro limit
    rw [wrap, Text.splitOn_of_not_mem hspace]
    simp only [List.map_cons, List.map_nil, layouts, if_pos (hwidth limit)]
    rfl
  rw [Cell.ofText, Text.splitOn_of_not_mem hnewline]
  exact hwrap _

theorem words_rule_append (widths : List Nat) (rest : Text) :
    words (rule widths ++ rest) = words rest := by
  let segments : Text := widths.flatMap fun w => List.replicate (w + 2) 45 ++ [43]
  have hrule : rule widths ++ rest = (43 :: segments) ++ 10 :: rest := by
    have hstart : Text.ofString "+" = [43] := rfl
    have hend : Text.ofString "\n" = [10] := rfl
    simp [rule, segments, hstart, hend]
  have hsegments : isDrawn (43 :: segments) = true := by
    simp [isDrawn, segments]
  rw [hrule, words_append_gap (by decide), words_of_isDrawn hsegments, List.nil_append]

/-- The words of a line are those of its cells. -/
theorem words_rowLine_append {cells ws : List Text}
    (h : List.Forall₂ (fun c w => words c = [w]) cells ws) (rest : Text) :
    words (rowLine cells ++ rest) = ws ++ words rest := by
  have hbar : words [124] = [] := words_of_isDrawn rfl
  have hline : rowLine cells ++ rest =
      124 :: ((cells.flatMap fun c => 32 :: (c ++ [32, 124])) ++ 10 :: rest) := by
    have hstart : Text.ofString "|" = [124] := rfl
    have hspace : Text.ofString " " = [32] := rfl
    have hstop : Text.ofString " |" = [32, 124] := rfl
    have hend : Text.ofString "\n" = [10] := rfl
    simp [rowLine, hstart, hspace, hstop, hend]
  rw [hline]
  clear hline
  induction h with
  | nil =>
      have hend := words_append_gap (b := 10) (by decide) [124] rest
      rw [hbar] at hend
      exact hend
  | @cons c w cells ws hc _ ih =>
      -- the bar before a cell and the cell itself each end at a space
      have hcell : 124 :: (((c :: cells).flatMap fun c => 32 :: (c ++ [32, 124])) ++ 10 :: rest) =
          [124] ++ 32 :: (c ++ 32 :: 124 ::
            ((cells.flatMap fun c => 32 :: (c ++ [32, 124])) ++ 10 :: rest)) := by
        simp
      rw [hcell, words_append_gap (by decide), hbar, words_append_gap (by decide), hc, ih]
      rfl

/-- Words make a row of a single line. -/
theorem row_ofWords (place : Nat → Text → Text) (widths : List Nat) {ws : List Text}
    (hne : ws ≠ []) (hws : ∀ w ∈ ws, IsWord w) :
    row place widths (ws.map Cell.ofText) = rowLine (List.zipWith place widths ws) := by
  have hheights : (ws.map Cell.ofText).map (·.lines.length) = ws.map fun _ => 1 := by
    rw [List.map_map]
    apply List.map_congr_left
    intro w hw
    simp [lines_ofText (hws w hw)]
  have hheight : ((ws.map fun _ => 1).foldl max 0) = 1 := by
    cases ws with
    | nil => exact absurd rfl hne
    | cons w ws =>
        rw [List.map_cons, List.foldl_cons, Nat.zero_max]
        clear hne hws hheights
        induction ws with
        | nil => rfl
        | cons w ws ih => exact ih
  have hlines : (ws.map Cell.ofText).map (fun c => (c.lines[0]?).getD (Text.ofString "  ")) = ws := by
    rw [List.map_map, List.map_congr_left (g := id) fun w hw => by simp [lines_ofText (hws w hw)],
      List.map_id]
  have hcells : List.zipWith (fun w c => place w ((c.lines[0]?).getD "  ")) widths
      (ws.map Cell.ofText) = List.zipWith place widths ws := by
    rw [← List.zipWith_map_right, hlines]
  unfold row
  rw [hheights, hheight]
  exact (List.append_nil _).trans (congrArg rowLine hcells)

theorem words_row_append {place : Nat → Text → Text}
    (hplace : ∀ width w, words (place width w) = words w) {widths : List Nat} {ws : List Text}
    (hlength : widths.length = ws.length) (hws : ∀ w ∈ ws, IsWord w) (rest : Text) :
    words (row place widths (ws.map Cell.ofText) ++ rest) = ws ++ words rest := by
  by_cases hne : ws = []
  · subst hne
    rfl
  rw [row_ofWords place widths hne hws]
  apply words_rowLine_append
  clear hne
  induction ws generalizing widths with
  | nil =>
      rw [List.zipWith_nil_right]
      exact .nil
  | cons w ws ih =>
      cases widths with
      | nil => cases hlength
      | cons width widths =>
          refine .cons ?_ (ih (Nat.succ.inj hlength) fun w hw => hws w (List.mem_cons_of_mem _ hw))
          rw [hplace, words_of_isWord (hws w List.mem_cons_self)]

theorem legible_render {titles : List Text} (htitles : ∀ c ∈ titles, IsWord c) :
    Legible render titles := by
  intro cells hlength hcells
  let widths := List.zipWith (fun a b => max a.width b.width) (titles.map Cell.ofText)
    (cells.map Cell.ofText)
  have hwidths : widths.length = titles.length := by
    simp [widths, hlength]
  have hend : words (rule widths) = [] := by
    have hrule := words_rule_append widths []
    rw [List.append_nil] at hrule
    exact hrule.trans (words_of_isDrawn rfl)
  have hrender : render titles cells =
      rule widths ++ (row center widths (titles.map Cell.ofText) ++ (rule widths ++
        (row align widths (cells.map Cell.ofText) ++ rule widths))) := by
    simp only [render, widths, List.append_assoc]
  rw [hrender, words_rule_append, words_row_append words_center hwidths htitles, words_rule_append,
    words_row_append words_align (hwidths.trans hlength.symm) hcells, hend, List.append_nil]

end Table

open Table

theorem Decimal.isSolid_of_digits {t : Text} (h : ∀ b ∈ t, isDigit b = true) : IsSolid t := by
  apply List.all_eq_true.mpr
  intro b hb
  have hbound := (bounds_of_isDigit (h b hb)).1
  rw [Bool.not_eq_true', isGap, decide_eq_false_iff_not]
  exact UInt8.not_le.mpr (UInt8.lt_of_lt_of_le (by decide) hbound)

theorem Decimal.isWord_ofNat (n : Nat) : IsWord (ofNat n) := by
  refine ⟨isSolid_of_digits fun b hb => isDigit_of_mem_ofNat hb, ?_⟩
  obtain ⟨b, hb⟩ := List.exists_mem_of_ne_nil _ (ofNat_ne_nil n)
  have hdigit := isDigit_of_mem_ofNat hb
  apply List.all_eq_false.mpr
  refine ⟨b, hb, ?_⟩
  simp only [Bool.or_eq_true, beq_iff_eq]
  rintro ((rfl | rfl) | rfl) <;> cases hdigit

theorem Decimal.isWord_ofInt (n : Int) : IsWord (ofInt n) := by
  have hsign : IsSolid [45] := by decide
  unfold ofInt
  split
  · exact hsign.append_word (isWord_ofNat _)
  · exact isWord_ofNat _

namespace Duration

theorem isSolid_fractionText (places n : Nat) : IsSolid (fractionText places n) := by
  induction places generalizing n with
  | zero => rfl
  | succ places ih =>
      unfold fractionText
      split
      · rfl
      split
      · exact ih (n / 10)
      · have hpoint : IsSolid [46] := by decide
        have hzeros : IsSolid (List.replicate (places + 1 - (Decimal.ofNat n).length) 48) := by
          apply Decimal.isSolid_of_digits
          intro b hb
          rw [List.eq_of_mem_replicate hb]
          rfl
        exact hpoint.append (hzeros.append (Decimal.isWord_ofNat n).1)

theorem isWord_inUnit (places n : Nat) {unit : Text} (h : IsSolid unit) :
    IsWord (inUnit places n unit) :=
  ((Decimal.isWord_ofNat _).append (isSolid_fractionText _ _)).append h

theorem isWord_sizeText (n : Nat) : IsWord (sizeText n) := by
  have hpart (shown : Prop) [Decidable shown] (count : Nat) {unit : Text} (hunit : IsSolid unit) :
      IsSolid (if shown then Decimal.ofNat count ++ unit else []) := by
    split
    · exact (Decimal.isWord_ofNat count).1.append hunit
    · rfl
  unfold sizeText
  split
  · decide
  split
  · exact isWord_inUnit 0 n (by decide)
  split
  · exact isWord_inUnit 3 n (by decide)
  split
  · exact isWord_inUnit 6 n (by decide)
  · exact ((hpart _ _ (by decide)).append (hpart _ _ (by decide))).append_word
      (isWord_inUnit 9 _ (by decide))

theorem isWord_text (d : Duration) : IsWord d.text := by
  have hsign : IsSolid [45] := by decide
  unfold text
  split
  · exact hsign.append_word (isWord_sizeText _)
  · exact isWord_sizeText _

end Duration

end ArithAsm
