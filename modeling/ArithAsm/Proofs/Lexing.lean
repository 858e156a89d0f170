import Mathlib.Data.List.Chain
import ArithAsm.Lexeme.Lexer
import ArithAsm.Proofs.Position
import ArithAsm.Proofs.Result

/-!
Lexemes account for the whole source. Each of them is a piece of the text that
spells its kind, they follow each other with nothing but blanks in between, and
the location of each is where the text before it ends. The lexer is followed
call by call: it always stands at the end of some of the runes of the source.
-/

namespace ArithAsm

namespace LexemeKind

/-- The text of the kinds that are always spelled in the same way. -/
def symbol? : LexemeKind → Option String
  | plus => some "+"
  | minus => some "-"
  | star => some "*"
  | slash => some "/"
  | leftParen => some "("
  | rightParen => some ")"
  | eq => some "=="
  | ne => some "!="
  | lt => some "<"
  | le => some "<="
  | gt => some ">"
  | ge => some ">="
  | eof | number | unknown => none

/-- A number is a run of digits; operators and parentheses are their symbols. -/
def Spells (k : LexemeKind) (t : Text) : Prop :=
  match k with
  | number => t ≠ [] ∧ ∀ b ∈ t, Decimal.isDigit b = true
  | k => ∃ s, k.symbol? = some s ∧ t = Text.ofString s

theorem Spells.ne_nil {k : LexemeKind} {t : Text} (h : k.Spells t) : t ≠ [] := by
  cases k with
  | number => exact h.1
  | _ =>
      obtain ⟨s, hs, rfl⟩ := h
      cases hs <;> decide

theorem Spells.ne_eof {k : LexemeKind} {t : Text} (h : k.Spells t) : k ≠ .eof := by
  rintro rfl
  obtain ⟨s, hs, _⟩ := h
  cases hs

end LexemeKind

namespace Lexeme

/-- The byte offset at which the lexeme starts. -/
def start (l : Lexeme) : Nat :=
  l.loc.offset.toNat

/-- The byte offset right after the lexeme. -/
def stop (l : Lexeme) : Nat :=
  l.start + l.text.length

end Lexeme

namespace Text

/-- The bytes from one offset up to another. -/
def slice (t : Text) (i j : Nat) : Text :=
  t.extract i j

/-- Nothing but blanks, read as runes. -/
def IsBlank (t : Text) : Prop :=
  ∀ r ∈ t.runes, isBlank r.char = true

theorem slice_append (before t rest : Text) :
    slice (before ++ (t ++ rest)) before.length (before.length + t.length) = t := by
  rw [slice, List.extract_eq_take_drop, List.drop_left, Nat.add_sub_cancel_left, List.take_left]

end Text

namespace Rune

/-- A rune with an ASCII character is the byte of that character. -/
theorem eq_ofAscii {t : Text} {r : Rune} (h : r ∈ t.runes) (hchar : r.char.toNat < 0x80) :
    ∃ b, b < 0x80 ∧ b.toNat = r.char.toNat ∧ r = ofAscii b := by
  rcases Text.mem_runes_cases h with ⟨b, hb, rfl⟩ | ⟨hwide, _⟩
  · exact ⟨b, hb, (toNat_ofNat (isValidChar_of_ascii hb)).symm, rfl⟩
  · omega

theorem bytes_eq_ofChar {t : Text} {r : Rune} (h : r ∈ t.runes) (hchar : r.char.toNat < 0x80) :
    r.bytes = [UInt8.ofNat r.char.toNat] := by
  obtain ⟨b, _, hb, rfl⟩ := eq_ofAscii h hchar
  rw [← hb, UInt8.ofNat_toNat]
  rfl

end Rune

namespace Lexer

theorem isDigit_ofAscii {b : UInt8} (h : b < 0x80) :
    isDigit (Rune.ofAscii b) = Decimal.isDigit b := by
  have hval : (Char.ofNat b.toNat).val.toNat = b.toNat :=
    Rune.toNat_ofNat (Rune.isValidChar_of_ascii h)
  simp only [isDigit, Rune.ofAscii, Char.isDigit, Decimal.isDigit, UInt32.le_iff_toNat_le,
    UInt8.le_iff_toNat_le, hval, ge_iff_le]
  rfl

theorem toNat_lt_of_isDigit {r : Rune} (h : isDigit r = true) : r.char.toNat < 0x80 := by
  simp only [isDigit, Char.isDigit, Bool.and_eq_true, decide_eq_true_eq,
    UInt32.le_iff_toNat_le, ge_iff_le] at h
  exact Nat.lt_of_le_of_lt h.2 (by decide)

theorem bytes_of_isDigit {t : Text} {r : Rune} (h : r ∈ t.runes) (hdigit : isDigit r = true) :
    ∃ b, Decimal.isDigit b = true ∧ r.bytes = [b] := by
  obtain ⟨b, hb, _, rfl⟩ := Rune.eq_ofAscii h (toNat_lt_of_isDigit hdigit)
  exact ⟨b, by rwa [← isDigit_ofAscii hb], rfl⟩

theorem pairKind?_spells {c d : Char} {k : LexemeKind} (h : pairKind? c d = some k) :
    c.toNat < 0x80 ∧ d.toNat < 0x80 ∧
      k.Spells [UInt8.ofNat c.toNat, UInt8.ofNat d.toNat] := by
  unfold pairKind? at h
  split at h <;> cases h <;> exact ⟨by decide, by decide, _, rfl, by decide⟩

theorem singleKind?_spells {c : Char} {k : LexemeKind} (h : singleKind? c = some k) :
    c.toNat < 0x80 ∧ k.Spells [UInt8.ofNat c.toNat] := by
  unfold singleKind? at h
  split at h <;> cases h <;> exact ⟨by decide, _, rfl, by decide⟩

theorem drop_length_takeWhile (p : Rune → Bool) (rs : List Rune) :
    rs.drop (rs.takeWhile p).length = rs.dropWhile p := by
  calc
    rs.drop (rs.takeWhile p).length
      = (rs.takeWhile p ++ rs.dropWhile p).drop (rs.takeWhile p).length := by
        rw [List.takeWhile_append_dropWhile]
    _ = rs.dropWhile p := List.drop_left

/-- The lexer stands at byte `n` of the source: it has passed the runes before
that byte, and all others are still to be read. -/
def At (source : Text) (n : Nat) (l : Lexer) : Prop :=
  ∃ passed, source.runes = passed ++ l.rest ∧ l.loc = Location.start.past passed ∧
    n = (Text.ofRunes passed).length

theorem at_ofText (source : Text) : At source 0 (ofText source) :=
  ⟨[], rfl, rfl, rfl⟩

section Steps

variable {source : Text} {n : Nat} {l : Lexer}

theorem At.mem_runes (h : At source n l) {r : Rune} (hr : r ∈ l.rest) : r ∈ source.runes := by
  obtain ⟨passed, hrunes, _, _⟩ := h
  rw [hrunes]
  exact List.mem_append_right passed hr

theorem At.loc_eq (h : At source n l) :
    n ≤ source.length ∧ l.loc = .after (source.take n) := by
  obtain ⟨passed, hrunes, hloc, rfl⟩ := h
  have hsource : source = Text.ofRunes passed ++ Text.ofRunes l.rest := by
    rw [← Text.ofRunes_append, ← hrunes, Text.ofRunes_runes]
  refine ⟨?_, ?_⟩
  · rw [hsource]
    simp
  · rw [hloc, Location.past_start_eq_after hrunes]
    conv => rhs; rw [hsource]
    rw [List.take_left]

theorem At.eq_length (h : At source n l) (hrest : l.rest = []) : n = source.length := by
  obtain ⟨passed, hrunes, _, rfl⟩ := h
  rw [hrest, List.append_nil] at hrunes
  rw [← hrunes, Text.ofRunes_runes]

theorem At.runes_eq (h : At source n l) : source.runes = Text.runes (source.take n) ++ l.rest := by
  obtain ⟨passed, hrunes, _, rfl⟩ := h
  have htake : source.take (Text.ofRunes passed).length = Text.ofRunes passed := by
    conv => lhs; rw [← Text.ofRunes_runes source, hrunes, Text.ofRunes_append]
    rw [List.take_left]
  rw [htake, (Text.runes_of_append hrunes).1, hrunes]

/-- The fewer runes are left, the further the lexer has come. -/
theorem At.lt_of_rest {k : Nat} {l' : Lexer} (h : At source n l) (h' : At source k l')
    (hlt : l'.rest.length < l.rest.length) : n < k := by
  obtain ⟨passed, hrunes, _, rfl⟩ := h
  obtain ⟨passed', hrunes', _, rfl⟩ := h'
  have hlengths := congrArg List.length (hrunes.symm.trans hrunes')
  simp only [List.length_append] at hlengths
  obtain ⟨more, rfl⟩ : passed <+: passed' :=
    List.prefix_of_prefix_length_le ⟨_, hrunes.symm⟩ ⟨_, hrunes'.symm⟩ (by omega)
  cases more with
  | nil =>
      simp only [List.append_nil] at hlengths
      omega
  | cons r more =>
      have hr : r ∈ source.runes := by
        rw [hrunes']
        simp
      have hpos : 0 < r.bytes.length := List.length_pos_of_ne_nil (Text.bytes_ne_nil hr)
      simp only [Text.ofRunes_append, Text.ofRunes_cons, List.length_append]
      omega

/-- Passing some runes: what lies between the two places is made of them. -/
theorem At.past (h : At source n l) {rs rest : List Rune} (hrest : l.rest = rs ++ rest) :
    ∃ m, n ≤ m ∧ At source m ⟨rest, l.loc.past rs⟩ ∧
      source.slice n m = Text.ofRunes rs ∧ (source.slice n m).runes = rs := by
  obtain ⟨passed, hrunes, hloc, rfl⟩ := h
  rw [hrest] at hrunes
  have hpassed : source.runes = (passed ++ rs) ++ rest := by rw [hrunes, List.append_assoc]
  have hrs : (Text.ofRunes rs).runes = rs := by
    have htail := (Text.runes_of_append hrunes).2
    exact (Text.runes_of_append htail).1
  have hsource : source = Text.ofRunes passed ++ (Text.ofRunes rs ++ Text.ofRunes rest) := by
    rw [← Text.ofRunes_append, ← Text.ofRunes_append, ← hrunes, Text.ofRunes_runes]
  refine ⟨(Text.ofRunes (passed ++ rs)).length, ?_, ⟨passed ++ rs, hpassed, ?_, rfl⟩, ?_⟩
  · rw [Text.ofRunes_append, List.length_append]
    exact Nat.le_add_right _ _
  · rw [hloc]
    exact (List.foldl_append ..).symm
  · have hslice : source.slice (Text.ofRunes passed).length
        (Text.ofRunes (passed ++ rs)).length = Text.ofRunes rs := by
      conv => lhs; rw [hsource]
      rw [Text.ofRunes_append, List.length_append, Text.slice_append]
    rw [hslice]
    exact ⟨rfl, hrs⟩

theorem At.skipBlanks (h : At source n l) :
    ∃ m, n ≤ m ∧ At source m l.skipBlanks ∧ (source.slice n m).IsBlank := by
  obtain ⟨m, hle, hat, _, hblanks⟩ :=
    h.past (List.takeWhile_append_dropWhile (p := (isBlank ·.char))).symm
  refine ⟨m, hle, hat, ?_⟩
  intro r hr
  rw [hblanks] at hr
  simpa using List.mem_takeWhile_imp hr

theorem At.advance {r : Rune} {rest : List Rune} {loc : Location}
    (h : At source n ⟨r :: rest, loc⟩) (count : Nat) :
    ∃ m, n ≤ m ∧ At source m (advance loc r rest count) ∧
      source.slice n m = Text.ofRunes (r :: rest.take count) := by
  have hrest : r :: rest = (r :: rest.take count) ++ rest.drop count := by simp
  obtain ⟨m, hle, hat, hslice, _⟩ := h.past hrest
  exact ⟨m, hle, hat, hslice⟩

end Steps

/-- What an answer says about the bytes from `n` to `m`: a lexeme starts at the
first of them and spells its kind with all of them, an error starts there. -/
def Accounts (source : Text) (n m : Nat) : Except LexError Lexeme → Prop
  | .ok l => l.loc = .after (source.take n) ∧ l.text = source.slice n m ∧ l.kind.Spells l.text
  | .error e => e.loc = .after (source.take n)

section Steps

variable {source : Text} {n : Nat} {l : Lexer}

theorem number_accounts {checked : Bool} {loc : Location} {m : Nat} {digits : Text}
    (hloc : loc = .after (source.take n)) (hslice : source.slice n m = digits)
    (hspells : LexemeKind.number.Spells digits) :
    Accounts source n m (number checked loc digits) := by
  unfold number
  dsimp only
  split
  · exact hloc
  · exact ⟨hloc, hslice.symm, hspells⟩

theorem number_spells {rs : List Rune} (hrunes : ∀ r ∈ rs, r ∈ source.runes)
    (hdigits : ∀ r ∈ rs, isDigit r = true) (hne : rs ≠ []) :
    LexemeKind.number.Spells (Text.ofRunes rs) := by
  refine ⟨?_, ?_⟩
  · obtain ⟨r, rs, rfl⟩ := List.exists_cons_of_ne_nil hne
    obtain ⟨b, _, hb⟩ := bytes_of_isDigit (hrunes r (by simp)) (hdigits r (by simp))
    simp [hb]
  · intro x hx
    obtain ⟨r, hr, hx⟩ := List.mem_flatMap.mp hx
    obtain ⟨b, hb, hbytes⟩ := bytes_of_isDigit (hrunes r hr) (hdigits r hr)
    obtain rfl : x = b := by simpa [hbytes] using hx
    exact hb

theorem symbol?_spells {r : Rune} {rest : List Rune} {k : LexemeKind} {count : Nat}
    (hrunes : ∀ r' ∈ r :: rest, r' ∈ source.runes) (h : symbol? r rest = some (k, count)) :
    k.Spells (Text.ofRunes (r :: rest.take count)) := by
  have hr : r ∈ source.runes := hrunes r List.mem_cons_self
  have hsingle : (singleKind? r.char).map (·, 0) = some (k, count) →
      k.Spells (Text.ofRunes (r :: rest.take count)) := by
    intro hmap
    obtain ⟨k', hk', heq⟩ := Option.map_eq_some_iff.mp hmap
    obtain ⟨rfl, rfl⟩ := Prod.mk.inj heq
    obtain ⟨hascii, hspells⟩ := singleKind?_spells hk'
    simpa [Text.ofRunes, Rune.bytes_eq_ofChar hr hascii] using hspells
  unfold symbol? at h
  split at h
  · rename_i next rest
    cases hpair : pairKind? r.char next.char with
    | none =>
        rw [hpair] at h
        exact hsingle h
    | some k' =>
        rw [hpair] at h
        obtain ⟨rfl, rfl⟩ := Prod.mk.inj (Option.some.inj h)
        obtain ⟨hascii, hascii', hspells⟩ := pairKind?_spells hpair
        have hnext : next ∈ source.runes := hrunes next (by simp)
        simpa [Text.ofRunes, Rune.bytes_eq_ofChar hr hascii,
          Rune.bytes_eq_ofChar hnext hascii'] using hspells
  · exact hsingle h

theorem At.scan {r : Rune} {rest : List Rune} {loc : Location}
    (h : At source n ⟨r :: rest, loc⟩) (checked : Bool) :
    ∃ m, n ≤ m ∧ At source m (scan checked loc r rest).2 ∧
      Accounts source n m (scan checked loc r rest).1 := by
  have hloc : loc = .after (source.take n) := h.loc_eq.2
  have hrunes : ∀ r' ∈ r :: rest, r' ∈ source.runes := fun r' hr' => h.mem_runes hr'
  unfold Lexer.scan
  split
  case isTrue hdigit =>
    obtain ⟨m, hle, hat, hslice⟩ := h.advance (rest.takeWhile isDigit).length
    rw [← List.prefix_iff_eq_take.mp (List.takeWhile_prefix isDigit)] at hslice
    have hall : ∀ r' ∈ r :: rest.takeWhile isDigit, isDigit r' = true := by
      intro r' hr'
      rcases List.mem_cons.mp hr' with rfl | hr'
      · exact hdigit
      · exact List.mem_takeWhile_imp hr'
    have hsource : ∀ r' ∈ r :: rest.takeWhile isDigit, r' ∈ source.runes := by
      intro r' hr'
      exact hrunes r' (List.cons_subset_cons r (List.takeWhile_subset isDigit) hr')
    have hspells := number_spells hsource hall (List.cons_ne_nil _ _)
    exact ⟨m, hle, hat, number_accounts hloc hslice hspells⟩
  case isFalse =>
    cases hsymbol : symbol? r rest with
    | some found =>
        obtain ⟨k, count⟩ := found
        obtain ⟨m, hle, hat, hslice⟩ := h.advance count
        exact ⟨m, hle, hat, hloc, hslice.symm, symbol?_spells hrunes hsymbol⟩
    | none =>
        obtain ⟨m, hle, hat, _⟩ := h.advance 0
        exact ⟨m, hle, hat, hloc⟩

theorem next_of_nil {checked : Bool} (h : l.skipBlanks.rest = []) :
    l.next checked = (.ok (.eofAt l.skipBlanks.loc), l.skipBlanks) := by
  simp only [Lexer.next, h]

theorem next_of_cons {checked : Bool} {r : Rune} {rest : List Rune}
    (h : l.skipBlanks.rest = r :: rest) :
    l.next checked = Lexer.scan checked l.skipBlanks.loc r rest := by
  simp only [Lexer.next, h]

theorem isBlank_of_skipBlanks {r : Rune} {rest : List Rune} (h : l.skipBlanks.rest = r :: rest) :
    isBlank r.char = false := by
  have hhead := List.head?_dropWhile_not (isBlank ·.char) l.rest
  have hrest : l.rest.dropWhile (isBlank ·.char) = r :: rest := h
  rw [hrest] at hhead
  simpa using hhead

/-- One call passes blanks up to some byte `m`. If that is where the source ends
it answers the end; otherwise a rune that is not blank stands there, and the call
passes at least that one and accounts for what it has passed. -/
theorem At.call (h : At source n l) (checked : Bool) :
    ∃ m, n ≤ m ∧ (source.slice n m).IsBlank ∧
      ((m = source.length ∧ At source m (l.next checked).2 ∧
          (l.next checked).1 = .ok (.eofAt (.after source))) ∨
        ∃ r rest k, source.runes = Text.runes (source.take m) ++ r :: rest ∧
          isBlank r.char = false ∧ m < k ∧ At source k (l.next checked).2 ∧
          Accounts source m k (l.next checked).1) := by
  obtain ⟨m, hle, hat, hblank⟩ := h.skipBlanks
  refine ⟨m, hle, hblank, ?_⟩
  cases hrest : l.skipBlanks.rest with
  | nil =>
      have hend : m = source.length := hat.eq_length hrest
      rw [next_of_nil hrest]
      refine .inl ⟨hend, hat, ?_⟩
      rw [hat.loc_eq.2, hend, List.take_length]
  | cons r rest =>
      have hstart : At source m ⟨r :: rest, l.skipBlanks.loc⟩ := by
        rw [← hrest]
        exact hat
      rw [next_of_cons hrest]
      obtain ⟨k, _, hat', haccounts⟩ := hstart.scan checked
      have hfewer := scan_rest_length_le checked l.skipBlanks.loc r rest
      have hlt : m < k := hstart.lt_of_rest hat' (Nat.lt_succ_of_le hfewer)
      exact .inr ⟨r, rest, k, hstart.runes_eq, isBlank_of_skipBlanks hrest, hlt, hat', haccounts⟩

/-- What a call answers, as far as the account of the source goes. -/
theorem At.next (h : At source n l) (checked : Bool) :
    ∃ m k, n ≤ m ∧ (source.slice n m).IsBlank ∧ At source k (l.next checked).2 ∧
      ((m = source.length ∧ (l.next checked).1 = .ok (.eofAt (.after source))) ∨
        (m ≤ k ∧ Accounts source m k (l.next checked).1)) := by
  obtain ⟨m, hle, hblank, hend | hlexeme⟩ := h.call checked
  · obtain ⟨hm, hat, hanswer⟩ := hend
    exact ⟨m, m, hle, hblank, hat, .inl ⟨hm, hanswer⟩⟩
  · obtain ⟨r, rest, k, _, _, hlt, hat, haccounts⟩ := hlexeme
    exact ⟨m, k, hle, hblank, hat, .inr ⟨Nat.le_of_lt hlt, haccounts⟩⟩

end Steps

section Answers

variable {checked : Bool} {l : Lexer}

theorem lexemes_of_error {e : LexError} (h : (l.next checked).1 = .error e) :
    l.lexemes checked = .error e := by
  rw [lexemes.eq_def]
  split <;> simp_all

theorem lexemes_of_eof {lexeme : Lexeme} (h : (l.next checked).1 = .ok lexeme)
    (hkind : lexeme.kind = .eof) : l.lexemes checked = .ok [lexeme] := by
  rw [lexemes.eq_def]
  split <;> simp_all

theorem lexemes_of_ok {lexeme : Lexeme} (h : (l.next checked).1 = .ok lexeme)
    (hkind : lexeme.kind ≠ .eof) :
    l.lexemes checked = ((l.next checked).2.lexemes checked).map (lexeme :: ·) := by
  rw [lexemes.eq_def]
  split <;> simp_all

/-- The lexemes depend only on what the next call does. -/
theorem lexemes_congr {l' : Lexer} (h : l.next checked = l'.next checked) :
    l.lexemes checked = l'.lexemes checked := by
  cases hanswer : (l'.next checked).1 with
  | error e => rw [lexemes_of_error hanswer, lexemes_of_error (h ▸ hanswer)]
  | ok lexeme =>
      by_cases hkind : lexeme.kind = .eof
      · rw [lexemes_of_eof hanswer hkind, lexemes_of_eof (h ▸ hanswer) hkind]
      · rw [lexemes_of_ok hanswer hkind, lexemes_of_ok (h ▸ hanswer) hkind, h]

end Answers

/-- The lexemes account for the source from byte `n` on: blanks up to the first
lexeme, its text, and so on until only blanks are left before the end. -/
inductive Covers (source : Text) : Nat → List Lexeme → Prop
  | eof {n : Nat} (hle : n ≤ source.length)
      (hblank : (source.slice n source.length).IsBlank) :
      Covers source n [.eofAt (.after source)]
  | lexeme {n : Nat} {l : Lexeme} {ls : List Lexeme} (hle : n ≤ l.start)
      (hblank : (source.slice n l.start).IsBlank)
      (hloc : l.loc = .after (source.take l.start))
      (htext : l.text = source.slice l.start l.stop) (hspells : l.kind.Spells l.text)
      (hrest : Covers source l.stop ls) : Covers source n (l :: ls)

theorem start_of_loc {source : Text} {n : Nat} {l : Lexeme} (hn : n ≤ source.length)
    (hloc : l.loc = .after (source.take n)) : l.start = n := by
  simp [Lexeme.start, hloc, Location.after, hn]

theorem stop_of_text {source : Text} {n m : Nat} {l : Lexeme} (hstart : l.start = n)
    (hnm : n ≤ m) (hm : m ≤ source.length) (htext : l.text = source.slice n m) :
    l.stop = m := by
  simp only [Lexeme.stop, hstart, htext, Text.slice, List.extract_eq_take_drop,
    List.length_take, List.length_drop]
  omega

/-- All lexemes of a run: induction over the calls, each of which starts where
the one before it has stopped. -/
theorem At.covers {source : Text} {n : Nat} {checked : Bool} {l : Lexer} {ls : List Lexeme}
    (h : At source n l) (hls : l.lexemes checked = .ok ls) : Covers source n ls := by
  fun_induction lexemes checked l generalizing n ls with
  | case1 l e l' hnext => cases hls
  | case2 l lexeme l' hnext hkind =>
      obtain rfl := Except.ok.inj hls
      obtain ⟨m, k, hle, hblank, _, hanswer⟩ := h.next checked
      simp only [hnext] at hanswer
      rcases hanswer with ⟨rfl, heof⟩ | ⟨_, haccounts⟩
      · rw [Except.ok.inj heof]
        exact .eof hle hblank
      · exact absurd hkind haccounts.2.2.ne_eof
  | case3 l lexeme l' hnext hkind ih =>
      obtain ⟨m, k, hle, hblank, hat, hanswer⟩ := h.next checked
      simp only [hnext] at hat hanswer
      rcases hanswer with ⟨_, heof⟩ | ⟨hmk, hloc, htext, hspells⟩
      · rw [Except.ok.inj heof] at hkind
        exact absurd rfl hkind
      · obtain ⟨rest, hrest, rfl⟩ := Result.map_eq_ok_iff.mp hls
        have hk : k ≤ source.length := hat.loc_eq.1
        have hstart := start_of_loc (Nat.le_trans hmk hk) hloc
        have hstop := stop_of_text hstart hmk hk htext
        rw [← hstart] at hle hblank hloc htext
        rw [← hstop] at hat htext
        exact .lexeme hle hblank hloc htext hspells (ih hat hrest)

namespace Covers

variable {source : Text} {n : Nat} {ls : List Lexeme}

theorem start_eof (source : Text) : (Lexeme.eofAt (.after source)).start = source.length := by
  simp [Lexeme.start, Lexeme.eofAt, Location.after]

theorem ends_with_eof (h : Covers source n ls) :
    ∃ body, ls = body ++ [.eofAt (.after source)] ∧
      ∀ l ∈ body, l.kind.Spells l.text ∧ l.text = source.slice l.start l.stop := by
  induction h with
  | eof => exact ⟨[], rfl, by simp⟩
  | @lexeme n l ls hle hblank hloc htext hspells hrest ih =>
      obtain ⟨body, rfl, hbody⟩ := ih
      refine ⟨l :: body, rfl, ?_⟩
      intro l' hl'
      rcases List.mem_cons.mp hl' with rfl | hl'
      · exact ⟨hspells, htext⟩
      · exact hbody l' hl'

theorem loc_eq (h : Covers source n ls) : ∀ l ∈ ls, l.loc = .after (source.take l.start) := by
  induction h with
  | eof =>
      intro l hl
      obtain rfl := List.mem_singleton.mp hl
      rw [start_eof, List.take_length]
      rfl
  | lexeme hle hblank hloc htext hspells hrest ih =>
      intro l hl
      rcases List.mem_cons.mp hl with rfl | hl
      · exact hloc
      · exact ih l hl

theorem le_start (h : Covers source n ls) : ∀ l ∈ ls, n ≤ l.start := by
  induction h with
  | eof hle =>
      intro l hl
      obtain rfl := List.mem_singleton.mp hl
      rwa [start_eof]
  | @lexeme n l ls hle hblank hloc htext hspells hrest ih =>
      intro l' hl'
      rcases List.mem_cons.mp hl' with rfl | hl'
      · exact hle
      · have hstop : l.stop ≤ l'.start := ih l' hl'
        have hstart : l.start ≤ l.stop := Nat.le_add_right _ _
        omega

theorem pairwise (h : Covers source n ls) :
    ls.Pairwise fun a b => a.start < b.start ∧ a.stop ≤ b.start := by
  induction h with
  | eof => exact List.pairwise_singleton _ _
  | @lexeme n l ls hle hblank hloc htext hspells hrest ih =>
      refine List.pairwise_cons.mpr ⟨?_, ih⟩
      intro l' hl'
      have hstop : l.stop ≤ l'.start := hrest.le_start l' hl'
      have hlength : 0 < l.text.length := List.length_pos_of_ne_nil hspells.ne_nil
      have hstart : l.start < l.stop := Nat.lt_add_of_pos_right hlength
      exact ⟨Nat.lt_of_lt_of_le hstart hstop, hstop⟩

theorem head_blank (h : Covers source n ls) :
    ∀ l ∈ ls.head?, (source.slice n l.start).IsBlank := by
  intro l hl
  cases h with
  | eof hle hblank =>
      obtain rfl := Option.some.inj hl
      rwa [start_eof]
  | lexeme hle hblank =>
      obtain rfl := Option.some.inj hl
      exact hblank

theorem gaps_blank (h : Covers source n ls) :
    ls.IsChain fun a b => (source.slice a.stop b.start).IsBlank := by
  induction h with
  | eof => exact List.isChain_singleton _
  | lexeme hle hblank hloc htext hspells hrest ih =>
      rw [List.isChain_cons]
      exact ⟨hrest.head_blank, ih⟩

end Covers

end Lexer

/-- Tokenization loses nothing and gets every position right. The end marker
comes last and only there, at the end of the source. All other lexemes are
pieces of the source that spell their kinds. They are in order and do not
overlap; what lies before, between and after them is blank. Lines and columns
are those of the text before the lexeme. -/
theorem tokenize_lossless {checked : Bool} {source : Text} {ls : List Lexeme}
    (h : tokenize checked source = .ok ls) :
    (∃ (body : List Lexeme) (eof : Lexeme),
      ls = body ++ [eof] ∧ eof.kind = .eof ∧ eof.loc.offset = source.length ∧
      ∀ l ∈ body, l.kind ≠ .eof ∧ l.kind.Spells l.text ∧
        l.text = source.slice l.start l.stop) ∧
    (ls.Pairwise fun a b => a.start < b.start ∧ a.stop ≤ b.start) ∧
    (∀ l ∈ ls.head?, (source.slice 0 l.start).IsBlank) ∧
    (ls.IsChain fun a b => (source.slice a.stop b.start).IsBlank) ∧
    ∀ l ∈ ls, l.loc = .after (source.take l.start) := by
  have hcovers := (Lexer.at_ofText source).covers h
  refine ⟨?_, hcovers.pairwise, hcovers.head_blank, hcovers.gaps_blank, hcovers.loc_eq⟩
  obtain ⟨body, rfl, hbody⟩ := hcovers.ends_with_eof
  refine ⟨body, _, rfl, rfl, rfl, ?_⟩
  intro l hl
  obtain ⟨hspells, htext⟩ := hbody l hl
  exact ⟨hspells.ne_eof, hspells, htext⟩

/-- A comparison over two lines, with a two-byte blank before the operator. -/
def wrappedComparison : Text := "1\n\u00a0<=22 "

def wrappedComparisonLexemes : List Lexeme := [
  ⟨.number, "1", 1, ⟨1, 1, 0⟩⟩, ⟨.le, "<=", 0, ⟨2, 2, 4⟩⟩, ⟨.number, "22", 22, ⟨2, 4, 6⟩⟩,
  .eofAt ⟨2, 7, 9⟩]

theorem tokenize_wrappedComparison :
    tokenize true wrappedComparison = .ok wrappedComparisonLexemes ∧
      (Lexeme.mk .le "<=" 0 ⟨2, 2, 4⟩).loc = .after (wrappedComparison.take 4) := by
  have hlexemes : tokenize true wrappedComparison = .ok wrappedComparisonLexemes := by
    with_unfolding_all rfl
  obtain ⟨_, _, _, _, hloc⟩ := tokenize_lossless hlexemes
  exact ⟨hlexemes, hloc _ (by simp [wrappedComparisonLexemes])⟩

end ArithAsm
