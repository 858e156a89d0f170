import ArithAsm.Text.Rune

/-!
How a text falls into runes. An ASCII byte is a rune of its own, and no other
rune contains one. Reading looks ahead by a few bytes, but what comes after a
rune has no influence on it: a text that is cut between two runes falls into the
same runes on either side of the cut.
-/

namespace ArithAsm

namespace Rune

/-- The rune that a single ASCII byte is read as. -/
def ofAscii (b : UInt8) : Rune :=
  ⟨Char.ofNat b.toNat, [b]⟩

theorem toNat_ofNat {n : Nat} (h : n.isValidChar) : (Char.ofNat n).toNat = n := by
  rw [Char.ofNat, dif_pos h]
  rfl

theorem isValidChar_of_ascii {b : UInt8} (h : b < 0x80) : b.toNat.isValidChar := by
  have hlt := UInt8.lt_iff_toNat_lt.mp h
  exact .inl (Nat.lt_trans hlt (by decide))

theorem toNat_ofNat_ascii {c : Char} (h : c.toNat < 0x80) :
    (UInt8.ofNat c.toNat).toNat = c.toNat := by
  rw [UInt8.toNat_ofNat', Nat.mod_eq_of_lt (by omega)]

theorem continued_append {value count result : Nat} {t : Text}
    (h : continued value count t = some result) (rest : Text) :
    continued value count (t ++ rest) = some result := by
  fun_induction continued value count t with
  | case1 value t => exact h
  | case2 => cases h
  | case3 value count b t hb ih => simpa [continued, hb] using ih h
  | case4 => cases h

/-- Only the bytes that are counted matter; they are all there, and all of them
are continuation bytes. -/
theorem continued_take {value count result : Nat} {t : Text}
    (h : continued value count t = some result) :
    continued value count (t.take count) = some result ∧ count ≤ t.length ∧
      ∀ b ∈ t.take count, isContinuation b = true := by
  fun_induction continued value count t with
  | case1 value t => exact ⟨by simpa [continued] using h, by simp, by simp⟩
  | case2 => cases h
  | case3 value count b t hb ih => simpa [continued, hb] using ih h
  | case4 => cases h

theorem scalar?_eq_some_iff {lead count least n : Nat} {t : Text} {c : Char} :
    scalar? lead count least t = some (c, n) ↔
      ∃ value, continued lead count t = some value ∧ (least ≤ value ∧ value.isValidChar) ∧
        c = Char.ofNat value ∧ n = count := by
  unfold scalar?
  cases continued lead count t with
  | none => simp
  | some value =>
      by_cases hvalue : least ≤ value ∧ value.isValidChar
      · simp [hvalue, eq_comm]
      · simp only [hvalue, if_false, reduceCtorEq, Option.some.injEq, exists_eq_left',
          false_and]

/-- What the first byte alone decides: an ASCII byte is complete, a stray byte
starts nothing, and any other byte fixes how many bytes follow it. -/
theorem sequence?_cases (b : UInt8) :
    (b < 0x80 ∧ ∀ t, sequence? b t = some (Char.ofNat b.toNat, 0)) ∨
    (0x80 ≤ b ∧ ∀ t, sequence? b t = none) ∨
    (0x80 ≤ b ∧ ∃ lead count least, 0x80 ≤ least ∧
      ∀ t, sequence? b t = scalar? lead count least t) := by
  by_cases hascii : b < 0x80
  · exact .inl ⟨hascii, fun t => by simp [sequence?, hascii]⟩
  have hle : 0x80 ≤ b := UInt8.not_lt.mp hascii
  right
  by_cases h2 : b < 0xC0
  · exact .inl ⟨hle, fun t => by simp [sequence?, hascii, h2]⟩
  by_cases h3 : b < 0xE0
  · refine .inr ⟨hle, b.toNat - 0xC0, 1, 0x80, by decide, ?_⟩
    simp [sequence?, hascii, h2, h3]
  by_cases h4 : b < 0xF0
  · refine .inr ⟨hle, b.toNat - 0xE0, 2, 0x800, by decide, ?_⟩
    simp [sequence?, hascii, h2, h3, h4]
  by_cases h5 : b < 0xF8
  · refine .inr ⟨hle, b.toNat - 0xF0, 3, 0x10000, by decide, ?_⟩
    simp [sequence?, hascii, h2, h3, h4, h5]
  · exact .inl ⟨hle, fun t => by simp [sequence?, hascii, h2, h3, h4, h5]⟩

theorem sequence?_append {b : UInt8} {t : Text} {c : Char} {n : Nat}
    (h : sequence? b t = some (c, n)) (rest : Text) :
    sequence? b (t ++ rest) = some (c, n) := by
  rcases sequence?_cases b with ⟨_, hseq⟩ | ⟨_, hseq⟩ | ⟨_, lead, count, least, _, hseq⟩
  · rw [hseq] at h ⊢
    exact h
  · rw [hseq] at h
    cases h
  · rw [hseq, scalar?_eq_some_iff] at h ⊢
    obtain ⟨value, hvalue, hfacts⟩ := h
    exact ⟨value, continued_append hvalue rest, hfacts⟩

theorem sequence?_take {b : UInt8} {t : Text} {c : Char} {n : Nat}
    (h : sequence? b t = some (c, n)) :
    sequence? b (t.take n) = some (c, n) ∧ n ≤ t.length := by
  rcases sequence?_cases b with ⟨_, hseq⟩ | ⟨_, hseq⟩ | ⟨_, lead, count, least, _, hseq⟩
  · rw [hseq] at h ⊢
    obtain ⟨-, rfl⟩ := Prod.mk.inj (Option.some.inj h)
    exact ⟨h, Nat.zero_le _⟩
  · rw [hseq] at h
    cases h
  · rw [hseq, scalar?_eq_some_iff] at h ⊢
    obtain ⟨value, hvalue, hbounds, hc, rfl⟩ := h
    obtain ⟨htake, hlength, _⟩ := continued_take hvalue
    exact ⟨⟨value, htake, hbounds, hc, rfl⟩, hlength⟩

theorem first_ascii {b : UInt8} (h : b < 0x80) (rest : Text) :
    first b rest = (ofAscii b, rest) := by
  simp [first, sequence?, h, ofAscii]

/-- Away from ASCII neither the character nor any of the bytes is ASCII. -/
theorem first_wide {b : UInt8} (h : 0x80 ≤ b) (rest : Text) :
    0x80 ≤ (first b rest).1.char.toNat ∧ ∀ x ∈ (first b rest).1.bytes, 0x80 ≤ x := by
  unfold first
  cases hseq : sequence? b rest with
  | none =>
      have hreplacement : 0x80 ≤ replacement.toNat := by decide
      exact ⟨hreplacement, by simpa using h⟩
  | some found =>
      obtain ⟨c, n⟩ := found
      rcases sequence?_cases b with
        ⟨hascii, _⟩ | ⟨_, hnone⟩ | ⟨_, lead, count, least, hleast, hscalar⟩
      · exact absurd h (UInt8.not_le.mpr hascii)
      · rw [hnone] at hseq
        cases hseq
      · rw [hscalar, scalar?_eq_some_iff] at hseq
        obtain ⟨value, hvalue, ⟨hle, hvalid⟩, rfl, rfl⟩ := hseq
        refine ⟨?_, ?_⟩
        · rw [toNat_ofNat hvalid]
          exact Nat.le_trans hleast hle
        · intro x hx
          rcases List.mem_cons.mp hx with rfl | hx
          · exact h
          · have hcont := (continued_take hvalue).2.2 x hx
            simp only [isContinuation, Bool.and_eq_true, decide_eq_true_eq] at hcont
            exact hcont.1

theorem first_bytes_eq_cons (b : UInt8) (rest : Text) :
    ∃ tail, (first b rest).1.bytes = b :: tail := by
  unfold first
  split
  · exact ⟨_, rfl⟩
  · exact ⟨[], rfl⟩

/-- A well-formed rune is complete, whatever comes after the text. -/
theorem first_append {b : UInt8} {t : Text} (h : (first b t).1.char ≠ replacement)
    (more : Text) : first b (t ++ more) = ((first b t).1, (first b t).2 ++ more) := by
  cases hseq : sequence? b t with
  | none =>
      simp only [first, hseq] at h
      exact absurd rfl h
  | some found =>
      obtain ⟨c, n⟩ := found
      obtain ⟨_, hlength⟩ := sequence?_take hseq
      simp only [first, hseq, sequence?_append hseq more, List.take_append_of_le_length hlength,
        List.drop_append_of_le_length hlength]

/-- A rune stays as it is when the text ends somewhere after it. -/
theorem first_of_append {b : UInt8} {t after more : Text} {r : Rune}
    (h : first b (t ++ more) = (r, after ++ more)) : first b t = (r, after) := by
  unfold first at h ⊢
  cases hseq : sequence? b (t ++ more) with
  | none =>
      -- what is no sequence here would be none with more bytes either
      have hnone : sequence? b t = none := by
        cases ht : sequence? b t with
        | none => rfl
        | some found =>
            rw [sequence?_append ht more] at hseq
            cases hseq
      simpa [hseq, hnone] using h
  | some found =>
      obtain ⟨c, n⟩ := found
      simp only [hseq, Prod.mk.injEq] at h
      obtain ⟨rfl, hdrop⟩ := h
      obtain ⟨htake, hlength⟩ := sequence?_take hseq
      have hle : n ≤ t.length := by
        have hlengths := congrArg List.length hdrop
        simp only [List.length_drop, List.length_append] at hlengths hlength
        omega
      rw [List.take_append_of_le_length hle] at htake ⊢
      rw [List.drop_append_of_le_length hle] at hdrop
      have hsome : sequence? b t = some (c, n) := by
        have hwhole := sequence?_append htake (t.drop n)
        rwa [List.take_append_drop] at hwhole
      simp only [hsome, List.append_cancel_right hdrop]

end Rune

namespace Text

@[simp] theorem runes_nil : runes [] = [] := by
  rw [runes]

theorem runes_cons (b : UInt8) (t : Text) :
    runes (b :: t) = (Rune.first b t).1 :: runes (Rune.first b t).2 := by
  rw [runes]

theorem runes_cons_ascii {b : UInt8} (h : b < 0x80) (t : Text) :
    runes (b :: t) = Rune.ofAscii b :: runes t := by
  rw [runes_cons, Rune.first_ascii h]

theorem ofRunes_append (rs rs' : List Rune) : ofRunes (rs ++ rs') = ofRunes rs ++ ofRunes rs' :=
  List.flatMap_append

@[simp] theorem ofRunes_cons (r : Rune) (rs : List Rune) :
    ofRunes (r :: rs) = r.bytes ++ ofRunes rs :=
  List.flatMap_cons

/-- An ASCII character is written as its byte, any other one without ASCII. -/
theorem ofChar_cases (c : Char) :
    (c.toNat < 0x80 ∧ ofChar c = [UInt8.ofNat c.toNat]) ∨
      (0x80 ≤ c.toNat ∧ ∀ b ∈ ofChar c, 0x80 ≤ b) := by
  have hwide : ∀ n, 0x80 ≤ n % 256 → 0x80 ≤ UInt8.ofNat n := by
    intro n hn
    rw [UInt8.le_iff_toNat_le, UInt8.toNat_ofNat']
    exact hn
  by_cases hascii : c.toNat < 0x80
  · have hle : c.val.toNat ≤ 127 := Nat.le_of_lt_succ hascii
    exact .inl ⟨hascii, by simp only [ofChar, String.utf8EncodeChar, hle, if_true]; rfl⟩
  · have hle : ¬ c.val.toNat ≤ 127 := fun hle => hascii (Nat.lt_succ_of_le hle)
    refine .inr ⟨Nat.le_of_not_lt hascii, ?_⟩
    simp only [ofChar, String.utf8EncodeChar, hle, if_false]
    split
    · simp only [List.forall_mem_cons]
      exact ⟨hwide _ (by omega), hwide _ (by omega), by simp⟩
    split
    · simp only [List.forall_mem_cons]
      exact ⟨hwide _ (by omega), hwide _ (by omega), hwide _ (by omega), by simp⟩
    · simp only [List.forall_mem_cons]
      exact ⟨hwide _ (by omega), hwide _ (by omega), hwide _ (by omega), hwide _ (by omega),
        by simp⟩

/-- An ASCII byte stands in the encoding of its own character only. -/
theorem not_mem_ofChar {c : Char} {b : UInt8} (hb : b < 0x80) (h : c.toNat ≠ b.toNat) :
    b ∉ ofChar c := by
  intro hmem
  rcases ofChar_cases c with ⟨hascii, hc⟩ | ⟨_, hwide⟩
  · rw [hc] at hmem
    have hnat := congrArg UInt8.toNat (List.mem_singleton.mp hmem)
    rw [Rune.toNat_ofNat_ascii hascii] at hnat
    exact h hnat.symm
  · exact absurd (hwide b hmem) (UInt8.not_le.mpr hb)

/-- The runes of a text of ASCII characters. -/
def ascii (t : Text) : List Rune :=
  t.map .ofAscii

@[simp] theorem ascii_cons (b : UInt8) (t : Text) : ascii (b :: t) = .ofAscii b :: ascii t := rfl

@[simp] theorem ascii_append (s t : Text) : ascii (s ++ t) = ascii s ++ ascii t :=
  List.map_append

@[simp] theorem ofRunes_ascii (t : Text) : ofRunes t.ascii = t := by
  induction t with
  | nil => rfl
  | cons b t ih => exact congrArg (b :: ·) ih

def isAscii (t : Text) : Bool :=
  t.all (· < 0x80)

@[simp] theorem isAscii_append (s t : Text) : isAscii (s ++ t) = (isAscii s && isAscii t) :=
  List.all_append

theorem runes_append_of_isAscii {s : Text} (h : s.isAscii = true) (t : Text) :
    (s ++ t).runes = s.ascii ++ t.runes := by
  induction s with
  | nil => rfl
  | cons b s ih =>
      simp only [isAscii, List.all_cons, Bool.and_eq_true, decide_eq_true_eq] at h
      rw [List.cons_append, runes_cons_ascii h.1, ih h.2, ascii_cons, List.cons_append]

theorem runes_of_isAscii {t : Text} (h : t.isAscii = true) : t.runes = t.ascii := by
  simpa using runes_append_of_isAscii h []

theorem ascii_ofChar {c : Char} (h : c.toNat < 0x80) : ascii (ofChar c) = [⟨c, ofChar c⟩] := by
  rcases ofChar_cases c with ⟨_, hc⟩ | ⟨hwide, _⟩
  · rw [hc, ascii, List.map_singleton, Rune.ofAscii, Rune.toNat_ofNat_ascii h, Char.ofNat_toNat]
  · omega

/-- A text is empty, or a rune and then a text. -/
@[elab_as_elim]
theorem runes_induction {motive : Text → Prop} (nil : motive [])
    (cons : ∀ r t, runes (r.bytes ++ t) = r :: runes t → motive t → motive (r.bytes ++ t))
    (t : Text) : motive t := by
  fun_induction runes t with
  | case1 => exact nil
  | case2 b rest ih =>
      have hsplit := Rune.first_bytes_append b rest
      have hcons := cons (Rune.first b rest).1 (Rune.first b rest).2
      rw [hsplit] at hcons
      exact hcons (runes_cons b rest) ih

/-- A rune of a text is an ASCII byte, or has nothing to do with ASCII. -/
theorem mem_runes_cases {t : Text} {r : Rune} (h : r ∈ t.runes) :
    (∃ b, b < 0x80 ∧ r = Rune.ofAscii b) ∨
      (0x80 ≤ r.char.toNat ∧ ∀ b ∈ r.bytes, 0x80 ≤ b) := by
  fun_induction runes t with
  | case1 => cases h
  | case2 b rest ih =>
      rcases List.mem_cons.mp h with rfl | hrest
      · by_cases hb : b < 0x80
        · exact .inl ⟨b, hb, by rw [Rune.first_ascii hb]⟩
        · exact .inr (Rune.first_wide (UInt8.not_lt.mp hb) rest)
      · exact ih hrest

/-- Every rune of a text takes up some of its bytes. -/
theorem bytes_ne_nil {t : Text} {r : Rune} (h : r ∈ t.runes) : r.bytes ≠ [] := by
  fun_induction runes t with
  | case1 => cases h
  | case2 b rest ih =>
      rcases List.mem_cons.mp h with rfl | hrest
      · obtain ⟨tail, hbytes⟩ := Rune.first_bytes_eq_cons b rest
        rw [hbytes]
        exact List.cons_ne_nil b tail
      · exact ih hrest

/-- What follows a text of well-formed runes falls into its own runes. -/
theorem runes_append {t : Text} (h : ∀ r ∈ t.runes, r.char ≠ Rune.replacement) (more : Text) :
    (t ++ more).runes = t.runes ++ more.runes := by
  fun_induction runes t with
  | case1 => simp
  | case2 b rest ih =>
      have hfirst := Rune.first_append (h _ List.mem_cons_self) more
      have hrest := ih fun r hr => h r (List.mem_cons_of_mem _ hr)
      rw [List.cons_append, runes_cons, hfirst]
      exact congrArg (_ :: ·) hrest

/-- The runes of a text, taken apart anywhere. -/
theorem runes_of_append {t : Text} {rs rs' : List Rune} (h : t.runes = rs ++ rs') :
    (ofRunes rs).runes = rs ∧ (ofRunes rs').runes = rs' := by
  induction rs generalizing t with
  | nil =>
      rw [List.nil_append] at h
      exact ⟨runes_nil, by rw [← h, ofRunes_runes]⟩
  | cons r rs ih =>
      cases t with
      | nil => simp at h
      | cons b t =>
          rw [runes_cons, List.cons_append, List.cons.injEq] at h
          obtain ⟨hr, hrest⟩ := h
          obtain ⟨hrs, hrs'⟩ := ih hrest
          refine ⟨?_, hrs'⟩
          obtain ⟨tail, hbytes⟩ := Rune.first_bytes_eq_cons b t
          have hafter : (Rune.first b t).2 = ofRunes rs ++ ofRunes rs' := by
            rw [← ofRunes_runes (Rune.first b t).2, hrest, ofRunes_append]
          have ht : t = tail ++ ofRunes rs ++ ofRunes rs' := by
            have hwhole := Rune.first_bytes_append b t
            rw [hbytes, hafter, List.cons_append, List.cons.injEq] at hwhole
            simpa using hwhole.2.symm
          have hwhole : Rune.first b (tail ++ ofRunes rs ++ ofRunes rs') =
              (r, ofRunes rs ++ ofRunes rs') := by
            rw [← ht]
            exact Prod.ext hr hafter
          have hfirst := Rune.first_of_append hwhole
          rw [hr] at hbytes
          rw [ofRunes_cons, hbytes, List.cons_append, runes_cons, hfirst, hrs]

end Text

end ArithAsm
