import ArithAsm.Text.Escaped
import ArithAsm.Proofs.Encoding
import ArithAsm.Proofs.Hexadecimal

/-!
What an escaped text is good for. It consists of printable characters, and between
single quotes it stays there: no quote stands by itself, and no escape is open at the
end. Unless a character that cannot be printed is too large for four digits, the text
can be read back, so different texts have different escaped forms.
-/

namespace ArithAsm

/-- The control characters of Unicode. -/
def isControl (c : Char) : Bool :=
  c.toNat < 0x20 || (0x7F ≤ c.toNat && c.toNat < 0xA0)

theorem isPrintable_of_ascii {c : Char} (h : 0x20 ≤ c.toNat) (h' : c.toNat < 0x7F) :
    isPrintable c = true := by
  have hascii : c.toNat < 0x80 := by omega
  simp [isPrintable, hascii, h, h']

theorem isControl_of_isPrintable {c : Char} (h : isPrintable c = true) : isControl c = false := by
  -- Beyond ASCII, the table starts above the second block of control characters.
  have hranges : printableRanges.all (fun range => 0xA0 ≤ range.1) = true := by decide +kernel
  unfold isPrintable at h
  dsimp only at h
  split at h
  case isTrue hascii =>
    simp only [Bool.and_eq_true, decide_eq_true_eq] at h
    simp only [isControl, Bool.or_eq_false_iff, Bool.and_eq_false_iff, decide_eq_false_iff_not]
    omega
  case isFalse hwide =>
    obtain ⟨range, hmem, hrange⟩ := List.any_eq_true.mp h
    have hlow := List.all_eq_true.mp hranges range hmem
    simp only [Bool.and_eq_true, decide_eq_true_eq] at hrange hlow
    simp only [isControl, Bool.or_eq_false_iff, Bool.and_eq_false_iff, decide_eq_false_iff_not]
    omega

namespace Escaped

open Text

/-- Reads the characters between two quotes from left to right. A backslash takes the
character after it; `pending` says that one has just been read. Answers whether no
quote stands by itself and no backslash is left over. -/
def isSealed : (pending : Bool) → List Char → Bool
  | pending, [] => !pending
  | true, _ :: rest => isSealed false rest
  | false, c :: rest => if c = '\\' then isSealed true rest else c ≠ '\'' && isSealed false rest

/-- The escapes that are a single character after the backslash. -/
def shortEscapes : List (UInt8 × Char) :=
  [(110, '\n'), (116, '\t'), (39, '\''), (92, '\\')]

/-- The marks of the other escapes, with the number of digits after them. -/
def digitEscapes : List (UInt8 × Nat) :=
  [(120, 2), (117, 4)]

/-- How far the reader of an escape has come: it has read the backslash, or the mark
and some digits that stand for `value`, with `left` of them still to come. -/
inductive Reading where
  | plain
  | mark
  | digits (left value : Nat)

/-- Replaces every escape by the character it stands for. Answers nothing for a text
with an escape that is unknown or incomplete. -/
def decode : Reading → Text → Option Text
  | .plain, [] => some []
  | .mark, [] | .digits _ _, [] => none
  | .plain, b :: rest =>
      if b = 92 then decode .mark rest else (decode .plain rest).map (b :: ·)
  | .mark, b :: rest =>
      match shortEscapes.lookup b with
      | some c => (decode .plain rest).map (ofChar c ++ ·)
      | none =>
          match digitEscapes.lookup b with
          | some count => decode (.digits count 0) rest
          | none => none
  | .digits left value, b :: rest =>
      match Numeral.digitValue? 16 b with
      | none => none
      | some d =>
          if 1 < left then decode (.digits (left - 1) (value * 16 + d)) rest
          else if (value * 16 + d).isValidChar then
            (decode .plain rest).map (ofChar (Char.ofNat (value * 16 + d)) ++ ·)
          else none

/-- What the escaped form of a character looks like. -/
inductive Form (c : Char) : Text → Prop
  | plain (hprintable : isPrintable c = true) (hquote : c ≠ '\'') (hbackslash : c ≠ '\\') :
      Form c (ofChar c)
  | short (mark : UInt8) (hmark : (mark, c) ∈ shortEscapes) : Form c [92, mark]
  | digits (mark : UInt8) (width : Nat) (hmark : (mark, width) ∈ digitEscapes)
      (hunprintable : isPrintable c = false)
      (hfits : c.toNat ≤ 0xFFFF → Hex.Fits width c.toNat) :
      Form c (92 :: mark :: Hex.ofNat .upper width c.toNat)

theorem form_ofRune (r : Rune) : Form r.char (ofRune r) := by
  obtain ⟨c, bytes⟩ := r
  unfold ofRune
  dsimp only
  split
  · exact .short 110 (by simp [shortEscapes])
  · exact .short 116 (by simp [shortEscapes])
  · exact .short 39 (by simp [shortEscapes])
  · exact .short 92 (by simp [shortEscapes])
  case h_5 _ _ hquote hbackslash =>
    split
    case isTrue hprintable => exact .plain hprintable hquote hbackslash
    case isFalse hunprintable =>
      have hunprintable := Bool.eq_false_iff.mpr hunprintable
      split
      case isTrue hsmall =>
        refine .digits 120 2 (by simp [digitEscapes]) hunprintable fun _ => ?_
        change c.toNat / 16 / 16 = 0
        omega
      case isFalse =>
        refine .digits 117 4 (by simp [digitEscapes]) hunprintable fun hfits => ?_
        change c.toNat / 16 / 16 / 16 / 16 = 0
        omega

/-- The text consists of printable characters, and whatever follows it between quotes
is read as if it stood there alone. -/
def Quotable (t : Text) : Prop :=
  ∃ cs : List Char, t = ofChars cs ∧ (∀ c ∈ cs, isPrintable c = true) ∧
    ∀ rest, isSealed false (cs ++ rest) = isSealed false rest

theorem Quotable.append {s t : Text} (hs : Quotable s) (ht : Quotable t) : Quotable (s ++ t) := by
  obtain ⟨cs, rfl, hcs, hsealed⟩ := hs
  obtain ⟨cs', rfl, hcs', hsealed'⟩ := ht
  refine ⟨cs ++ cs', (List.flatMap_append).symm, ?_, ?_⟩
  · intro c hc
    rcases List.mem_append.mp hc with hc | hc
    · exact hcs c hc
    · exact hcs' c hc
  · intro rest
    rw [List.append_assoc, hsealed, hsealed']

theorem quotable_nil : Quotable [] :=
  ⟨[], rfl, by simp, fun _ => rfl⟩

theorem quotable_ofChar {c : Char} (hprintable : isPrintable c = true) (hquote : c ≠ '\'')
    (hbackslash : c ≠ '\\') : Quotable (ofChar c) := by
  refine ⟨[c], (List.append_nil _).symm, by simpa using hprintable, ?_⟩
  intro rest
  simp [isSealed, hquote, hbackslash]

/-- The bytes of the printable ASCII characters. -/
def isVisible (b : UInt8) : Bool :=
  0x20 ≤ b && b < 0x7F

theorem exists_char_of_isVisible {b : UInt8} (h : isVisible b = true) :
    ∃ c, ofChar c = [b] ∧ isPrintable c = true := by
  simp only [isVisible, Bool.and_eq_true, decide_eq_true_eq, UInt8.le_iff_toNat_le,
    UInt8.lt_iff_toNat_lt] at h
  obtain ⟨hlow, hhigh⟩ : 0x20 ≤ b.toNat ∧ b.toNat < 0x7F := h
  have hchar : (Char.ofNat b.toNat).toNat = b.toNat := Rune.toNat_ofNat (.inl (by omega))
  refine ⟨Char.ofNat b.toNat, ?_, isPrintable_of_ascii (by omega) (by omega)⟩
  rw [ofChar_eq, if_pos (by omega), hchar, UInt8.ofNat_toNat]

theorem quotable_escape {mark : UInt8} (h : isVisible mark = true) : Quotable [92, mark] := by
  obtain ⟨c, hc, hprintable⟩ := exists_char_of_isVisible h
  have hbackslash : isPrintable '\\' = true := isPrintable_of_ascii (by decide) (by decide)
  refine ⟨['\\', c], ?_, by simp [hbackslash, hprintable], fun _ => rfl⟩
  rw [ofChars, List.flatMap_cons, List.flatMap_singleton, hc]
  rfl

theorem quotable_of_denotes {t : Text} {n : Nat} (h : Hex.Denotes .upper t n) : Quotable t := by
  obtain ⟨ds, rfl, hbound, -⟩ := h
  have hdigit : ∀ d < 16, ofChar (Char.ofNat (Hex.digit .upper d).toNat) = [Hex.digit .upper d] ∧
      isPrintable (Char.ofNat (Hex.digit .upper d).toNat) = true ∧
      Char.ofNat (Hex.digit .upper d).toNat ≠ '\'' ∧
      Char.ofNat (Hex.digit .upper d).toNat ≠ '\\' := by decide
  induction ds with
  | nil => exact quotable_nil
  | cons d ds ih =>
      obtain ⟨hchar, hprintable, hquote, hbackslash⟩ := hdigit d (hbound d List.mem_cons_self)
      have hrest := ih fun d hd => hbound d (List.mem_cons_of_mem _ hd)
      have hfirst := quotable_ofChar hprintable hquote hbackslash
      rw [hchar] at hfirst
      exact hfirst.append hrest

theorem Form.quotable {c : Char} {t : Text} (h : Form c t) : Quotable t := by
  have hshort : shortEscapes.all (fun escape => isVisible escape.1) = true := by decide
  have hdigits : digitEscapes.all (fun escape => isVisible escape.1) = true := by decide
  cases h with
  | plain hprintable hquote hbackslash => exact quotable_ofChar hprintable hquote hbackslash
  | short mark hmark => exact quotable_escape (List.all_eq_true.mp hshort _ hmark)
  | digits mark width hmark _ _ =>
      exact (quotable_escape (List.all_eq_true.mp hdigits _ hmark)).append
        (quotable_of_denotes (Hex.denotes_ofNat .upper width c.toNat))

theorem quotable_ofText (t : Text) : Quotable (ofText t) := by
  unfold ofText
  induction t.runes with
  | nil => exact quotable_nil
  | cons r rs ih => exact (form_ofRune r).quotable.append ih

theorem decode_plain_append {t : Text} (h : 92 ∉ t) (rest : Text) :
    decode .plain (t ++ rest) = (decode .plain rest).map (t ++ ·) := by
  induction t with
  | nil => simp
  | cons b t ih =>
      simp only [List.mem_cons, not_or] at h
      rw [List.cons_append, decode, if_neg (Ne.symm h.1), ih h.2, Option.map_map]
      rfl

theorem decode_short {mark : UInt8} {c : Char} (h : (mark, c) ∈ shortEscapes) (rest : Text) :
    decode .plain (92 :: mark :: rest) = (decode .plain rest).map (ofChar c ++ ·) := by
  have hlookup : shortEscapes.all (fun escape => shortEscapes.lookup escape.1 = some escape.2) =
      true := by decide
  have hmark := of_decide_eq_true (List.all_eq_true.mp hlookup _ h)
  rw [decode, if_pos rfl, decode, hmark]

/-- Digits are read from left to right, and the last one completes the character. -/
theorem decode_digits {ds : List Nat} (hbound : ∀ d ∈ ds, d < 16) (hne : ds ≠ []) {high : Nat}
    {c : Char} (hvalue : Hex.value high ds = c.toNat) (rest : Text) :
    decode (.digits ds.length high) (ds.map (Hex.digit .upper) ++ rest) =
      (decode .plain rest).map (ofChar c ++ ·) := by
  induction ds generalizing high with
  | nil => exact absurd rfl hne
  | cons d ds ih =>
      have hd := Hex.digitValue?_digit .upper (hbound d List.mem_cons_self)
      rw [List.map_cons, List.cons_append, decode, hd]
      dsimp only
      cases ds with
      | nil =>
          have hvalue : high * 16 + d = c.toNat := hvalue
          have hvalid : c.toNat.isValidChar := c.valid
          rw [if_neg (by simp), hvalue, if_pos hvalid, Char.ofNat_toNat]
          rfl
      | cons d' ds =>
          rw [if_pos (by simp)]
          exact ih (fun x hx => hbound x (List.mem_cons_of_mem d hx)) (List.cons_ne_nil d' ds) hvalue

theorem lookup_digitEscapes {mark : UInt8} {width : Nat} (h : (mark, width) ∈ digitEscapes) :
    shortEscapes.lookup mark = none ∧ digitEscapes.lookup mark = some width ∧ width ≠ 0 := by
  have hall : digitEscapes.all (fun escape => shortEscapes.lookup escape.1 = none ∧
      digitEscapes.lookup escape.1 = some escape.2 ∧ escape.2 ≠ 0) = true := by decide
  exact of_decide_eq_true (List.all_eq_true.mp hall _ h)

/-- An escaped character is read back, whatever comes after it. -/
theorem Form.decode_eq {c : Char} {t : Text} (h : Form c t)
    (hfits : isPrintable c = false → c.toNat ≤ 0xFFFF) (rest : Text) :
    decode .plain (t ++ rest) = (decode .plain rest).map (ofChar c ++ ·) := by
  cases h with
  | plain hprintable hquote hbackslash =>
      apply decode_plain_append
      apply not_mem_ofChar (by decide)
      intro heq
      exact hbackslash (Char.toNat_inj.mp heq)
  | short mark hmark => exact decode_short hmark rest
  | digits mark width hmark hunprintable hwidth =>
      obtain ⟨hshort, hdigits, hne⟩ := lookup_digitEscapes hmark
      -- The reader counts digits, so one that follows the escape is not taken for a part of it.
      have hlength := Hex.length_ofNat .upper (hwidth (hfits hunprintable))
      obtain ⟨ds, hds, hbound, hvalue⟩ := Hex.denotes_ofNat .upper width c.toNat
      rw [hds, List.length_map] at hlength
      have hds_ne : ds ≠ [] := fun hnil => hne (by rw [← hlength, hnil, List.length_nil])
      rw [hds, List.cons_append, List.cons_append, decode, if_pos rfl, decode, hshort]
      dsimp only
      rw [hdigits, ← hlength]
      exact decode_digits hbound hds_ne hvalue rest

/-- The text is UTF-8, and of its characters those that cannot be printed need no more
than four digits. -/
def Recoverable (t : Text) : Prop :=
  ∃ cs : List Char, t = ofChars cs ∧ ∀ c ∈ cs, isPrintable c = false → c.toNat ≤ 0xFFFF

theorem recoverable_ofChars {cs : List Char}
    (h : cs.all (fun c => isPrintable c || c.toNat ≤ 0xFFFF) = true) :
    Recoverable (ofChars cs) := by
  refine ⟨cs, rfl, ?_⟩
  intro c hc hunprintable
  simpa [hunprintable] using List.all_eq_true.mp h c hc

theorem decode_ofText {t : Text} (h : Recoverable t) : decode .plain (ofText t) = some t := by
  obtain ⟨cs, rfl, hfits⟩ := h
  rw [ofText, runes_ofChars]
  induction cs with
  | nil => rfl
  | cons c cs ih =>
      have hrest := ih fun c hc => hfits c (List.mem_cons_of_mem _ hc)
      have hfirst := (form_ofRune ⟨c, ofChar c⟩).decode_eq (hfits c List.mem_cons_self)
      rw [List.map_cons, List.flatMap_cons, hfirst, hrest]
      rfl

theorem eq_of_ofText_eq {s t : Text} (hs : Recoverable s) (ht : Recoverable t)
    (h : ofText s = ofText t) : s = t := by
  have hdecoded := decode_ofText hs
  rw [h, decode_ofText ht] at hdecoded
  exact (Option.some.inj hdecoded).symm

theorem isStray_ofChar (c : Char) : Rune.isStray ⟨c, ofChar c⟩ = false := by
  by_cases hc : c = Rune.replacement
  · subst hc
    decide
  · simp [Rune.isStray, hc]

/-- An escaped text consists of printable characters and can stand between single
quotes, where it is closed by no quote of its own. If the original is UTF-8 and has no
unprintable character beyond U+FFFF, decoding the escapes gives it back, and no other
such text has the same escaped form. -/
theorem ofText_quotable_decodable (t : Text) :
    (∀ r ∈ (ofText t).runes,
      r.isStray = false ∧ isPrintable r.char = true ∧ isControl r.char = false) ∧
    isSealed false ((ofText t).runes.map Rune.char) = true ∧
    (Recoverable t → decode .plain (ofText t) = some t ∧
      ∀ s, Recoverable s → ofText s = ofText t → s = t) := by
  obtain ⟨cs, hcs, hprintable, hsealed⟩ := quotable_ofText t
  refine ⟨?_, ?_, fun ht => ⟨decode_ofText ht, fun s hs h => eq_of_ofText_eq hs ht h⟩⟩
  · rw [hcs, runes_ofChars]
    intro r hr
    obtain ⟨c, hc, rfl⟩ := List.mem_map.mp hr
    exact ⟨isStray_ofChar c, hprintable c hc, isControl_of_isPrintable (hprintable c hc)⟩
  · rw [hcs, map_char_runes_ofChars, ← List.append_nil cs]
    exact hsealed []

/-- Characters that need escapes, before others that could be taken for a part of the
escape, and one beyond U+FFFF that needs none. -/
def crowded : List Char :=
  ['\'', '\x00', '4', '\n', 'n', '\u0085', '\u200B', 'B', '\\', '\'', 'é', '😀']

/-- The same with the escape of the second character written out. -/
def crowdedLookalike : List Char :=
  ['\'', '\\', 'x', '0', '0', '4', '\n', 'n', '\u0085', '\u200B', 'B', '\\', '\'', 'é', '😀']

theorem decode_ofText_crowded :
    decode .plain (ofText (ofChars crowded)) = some (ofChars crowded) ∧
      ofText (ofChars crowdedLookalike) ≠ ofText (ofChars crowded) := by
  have hcrowded : Recoverable (ofChars crowded) := recoverable_ofChars (by decide +kernel)
  have hlookalike : Recoverable (ofChars crowdedLookalike) :=
    recoverable_ofChars (by decide +kernel)
  obtain ⟨_, _, hdecodable⟩ := ofText_quotable_decodable (ofChars crowded)
  obtain ⟨hdecode, hunique⟩ := hdecodable hcrowded
  refine ⟨hdecode, fun heq => ?_⟩
  have hsame := hunique _ hlookalike heq
  exact absurd hsame (by decide)

end Escaped

end ArithAsm
