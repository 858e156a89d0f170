import ArithAsm.Proofs.Runes

/-!
Characters and their encodings. A character has an encoding of one to four bytes, and
reading it gives the character back, whatever comes after it. So a text that is put
together from characters falls into exactly those.
-/

namespace ArithAsm

theorem Text.ofChar_eq (c : Char) :
    ofChar c =
      if c.toNat ≤ 0x7F then [UInt8.ofNat c.toNat]
      else if c.toNat ≤ 0x7FF then
        [UInt8.ofNat (c.toNat / 64 % 32 + 192), UInt8.ofNat (c.toNat % 64 + 128)]
      else if c.toNat ≤ 0xFFFF then
        [UInt8.ofNat (c.toNat / 4096 % 16 + 224), UInt8.ofNat (c.toNat / 64 % 64 + 128),
          UInt8.ofNat (c.toNat % 64 + 128)]
      else
        [UInt8.ofNat (c.toNat / 262144 % 8 + 240), UInt8.ofNat (c.toNat / 4096 % 64 + 128),
          UInt8.ofNat (c.toNat / 64 % 64 + 128), UInt8.ofNat (c.toNat % 64 + 128)] :=
  rfl

namespace Rune

/-- The first byte decides by its size alone. -/
theorem sequence?_eq (b : UInt8) (t : Text) :
    sequence? b t =
      if b.toNat < 0x80 then some (Char.ofNat b.toNat, 0)
      else if b.toNat < 0xC0 then none
      else if b.toNat < 0xE0 then scalar? (b.toNat - 0xC0) 1 0x80 t
      else if b.toNat < 0xF0 then scalar? (b.toNat - 0xE0) 2 0x800 t
      else if b.toNat < 0xF8 then scalar? (b.toNat - 0xF0) 3 0x10000 t
      else none := by
  simp only [sequence?, UInt8.lt_iff_toNat_lt]
  rfl

/-- A continuation byte adds its six bits. -/
theorem continued_continuation (value count n : Nat) (t : Text) :
    continued value (count + 1) (UInt8.ofNat (n % 64 + 128) :: t) =
      continued (value * 64 + n % 64) count t := by
  have hbyte : (UInt8.ofNat (n % 64 + 128)).toNat = n % 64 + 128 := by
    rw [UInt8.toNat_ofNat', Nat.mod_eq_of_lt (by omega)]
  have hcontinuation : isContinuation (UInt8.ofNat (n % 64 + 128)) = true := by
    simp only [isContinuation, Bool.and_eq_true, decide_eq_true_eq, UInt8.le_iff_toNat_le,
      UInt8.lt_iff_toNat_lt, hbyte]
    exact ⟨Nat.le_add_left 128 _, Nat.add_lt_add_right (Nat.mod_lt n (by decide)) 128⟩
  rw [continued, if_pos hcontinuation, hbyte, Nat.add_sub_cancel]

theorem continued_continuations (value : Nat) (ns : List Nat) (rest : Text) :
    continued value ns.length (ns.map (fun n => UInt8.ofNat (n % 64 + 128)) ++ rest) =
      some (ns.foldl (fun value n => value * 64 + n % 64) value) := by
  induction ns generalizing value with
  | nil => rfl
  | cons n ns ih => exact (continued_continuation value ns.length n _).trans (ih _)

theorem scalar?_of_continued {lead count least : Nat} {c : Char} {t : Text}
    (h : continued lead count t = some c.toNat) (hleast : least ≤ c.toNat) :
    scalar? lead count least t = some (c, count) :=
  scalar?_eq_some_iff.mpr ⟨c.toNat, h, ⟨hleast, c.valid⟩, (Char.ofNat_toNat c).symm, rfl⟩

theorem toNat_lt (c : Char) : c.toNat < 0x110000 := by
  have hvalid := c.valid
  simp only [UInt32.isValidChar, Nat.isValidChar] at hvalid
  change c.val.toNat < 0x110000
  omega

/-- The encoding of a character is a well-formed sequence for that character. -/
theorem sequence?_ofChar (c : Char) :
    ∃ b tail, Text.ofChar c = b :: tail ∧
      ∀ rest, sequence? b (tail ++ rest) = some (c, tail.length) := by
  have hbound := toNat_lt c
  have hbyte : ∀ n < 256, (UInt8.ofNat n).toNat = n := fun n hn => by
    rw [UInt8.toNat_ofNat', Nat.mod_eq_of_lt hn]
  -- Each length has its own range of lead bytes, and none encodes what a shorter one can.
  rw [Text.ofChar_eq]
  split
  · refine ⟨_, [], rfl, fun rest => ?_⟩
    rw [sequence?_eq, hbyte _ (by omega), if_pos (by omega), Char.ofNat_toNat]
    rfl
  split
  · refine ⟨_, _, rfl, fun rest => ?_⟩
    rw [sequence?_eq, hbyte _ (by omega), if_neg (by omega), if_neg (by omega), if_pos (by omega)]
    refine scalar?_of_continued ((continued_continuations _ [c.toNat] rest).trans ?_) (by omega)
    simp only [List.foldl_cons, List.foldl_nil, Option.some.injEq]
    omega
  split
  · refine ⟨_, _, rfl, fun rest => ?_⟩
    rw [sequence?_eq, hbyte _ (by omega), if_neg (by omega), if_neg (by omega), if_neg (by omega),
      if_pos (by omega)]
    refine scalar?_of_continued
      ((continued_continuations _ [c.toNat / 64, c.toNat] rest).trans ?_) (by omega)
    simp only [List.foldl_cons, List.foldl_nil, Option.some.injEq]
    omega
  · refine ⟨_, _, rfl, fun rest => ?_⟩
    rw [sequence?_eq, hbyte _ (by omega), if_neg (by omega), if_neg (by omega), if_neg (by omega),
      if_neg (by omega), if_pos (by omega)]
    refine scalar?_of_continued
      ((continued_continuations _ [c.toNat / 4096, c.toNat / 64, c.toNat] rest).trans ?_)
      (by omega)
    simp only [List.foldl_cons, List.foldl_nil, Option.some.injEq]
    omega

end Rune

namespace Text

/-- A character is read back from its encoding. -/
theorem runes_ofChar_append (c : Char) (rest : Text) :
    runes (ofChar c ++ rest) = ⟨c, ofChar c⟩ :: runes rest := by
  obtain ⟨b, tail, hencoding, hsequence⟩ := Rune.sequence?_ofChar c
  rw [hencoding, List.cons_append, runes_cons, Rune.first, hsequence]
  simp

theorem runes_ofChars (cs : List Char) : runes (ofChars cs) = cs.map fun c => ⟨c, ofChar c⟩ := by
  induction cs with
  | nil => exact runes_nil
  | cons c cs ih => exact (runes_ofChar_append c (ofChars cs)).trans (congrArg (_ :: ·) ih)

theorem map_char_runes_ofChars (cs : List Char) : (ofChars cs).runes.map Rune.char = cs := by
  rw [runes_ofChars, List.map_map]
  exact List.map_id cs

end Text

end ArithAsm
