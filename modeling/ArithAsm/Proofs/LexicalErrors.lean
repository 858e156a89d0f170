import ArithAsm.Proofs.Layout

/-!
Where scanning fails. Every source is words and blanks, and then either nothing or
something that no word starts with, and there the lexer fails. Cutting the source
at that place leaves the words before it as they are. Conversely, what no word
starts with is an error wherever it comes after words and blanks, unless it goes on
with the last of the words.
-/

namespace ArithAsm

/-- Whether a rune right after another one goes on with the same word: a digit
after a digit, or an equals sign after `<` or `>`. -/
def Rune.continuedBy (a b : Rune) : Bool :=
  (Lexer.isDigit a && Lexer.isDigit b) || ((a.char = '<' || a.char = '>') && b.char = '=')

/-- Whether the first rune of a text goes on with the word at the end of the text
before it. -/
def Text.continuedBy (before after : Text) : Bool :=
  before.runes.getLast?.any fun a => after.runes.head?.any fun b => a.continuedBy b

theorem Text.continuedBy_eq_false_iff {before after : Text} :
    before.continuedBy after = false ↔
      ∀ a ∈ before.runes.getLast?, ∀ b ∈ after.runes.head?, a.continuedBy b = false := by
  simp only [continuedBy, Option.any_eq_false, Option.mem_def]

/-- No word starts at the front of the text, and why: its first rune is none that
words start with, or its first digits are a number that is too large. -/
inductive Stuck (checked : Bool) (t : Text) : LexCause → Text → Prop
  | invalid {r : Rune} {rest : List Rune} (hrunes : t.runes = r :: rest)
      (hblank : isBlank r.char = false) (hdigit : r.char.isDigit = false)
      (hsymbol : r.char ∉ ['+', '-', '*', '/', '(', ')', '<', '>'])
      (hpair : r.char = '=' ∨ r.char = '!' → ∀ next ∈ rest.head?, next.char ≠ '=') :
      Stuck checked t .invalidToken (Text.ofChar r.char)
  | overflow (hchecked : checked = true)
      (hvalue : UInt64.size ≤ Decimal.value (Decimal.leading t)) :
      Stuck checked t .numberOverflow (Decimal.leading t)

theorem Rune.continuedBy_of_isBlank {a : Rune} (h : isBlank a.char = true) (b : Rune) :
    a.continuedBy b = false := by
  have hdigit : Lexer.isDigit a = false := Lexer.isDigit_of_isBlank h
  have hchar : a.char ≠ '<' ∧ a.char ≠ '>' := by
    constructor
    · intro hchar
      rw [hchar] at h
      cases h
    · intro hchar
      rw [hchar] at h
      cases h
  simp [continuedBy, hdigit, hchar]

namespace Word

theorem exists_last (w : Word) : ∃ front last, w.text.ascii = front ++ [last] := by
  have hne : w.text.ascii ≠ [] := by
    intro hnil
    exact w.spells.ne_nil (List.map_eq_nil_iff.mp hnil)
  exact ⟨_, _, (List.dropLast_append_getLast hne).symm⟩

theorem ne_replacement {w : Word} {r : Rune} (h : r ∈ w.text.ascii) :
    r.char ≠ Rune.replacement := by
  obtain ⟨b, hb, rfl⟩ := List.mem_map.mp h
  have hascii : b < 0x80 := of_decide_eq_true (List.all_eq_true.mp w.spells.isAscii b hb)
  intro hreplacement
  have hnat := congrArg Char.toNat hreplacement
  rw [Rune.ofAscii, Rune.toNat_ofNat (Rune.isValidChar_of_ascii hascii)] at hnat
  have hlt : b.toNat < Rune.replacement.toNat := Nat.lt_trans b.toNat_lt (by decide)
  omega

/-- What goes on with a word is told by the last rune of the word. -/
theorem extendedBy_last {w : Word} {front : List Rune} {last : Rune}
    (h : w.text.ascii = front ++ [last]) (r : Rune) :
    w.kind.extendedBy r = last.continuedBy r := by
  obtain ⟨k, text, hspells⟩ := w
  rw [LexemeKind.extendedBy_eq, Rune.continuedBy]
  by_cases hk : k = .number
  · subst hk
    obtain ⟨b, hb, rfl⟩ := List.mem_map.mp (h ▸ List.mem_append_right front List.mem_cons_self)
    have hdigit := Lexer.isDigit_of_digit (hspells.2 b hb)
    have hchar : (Rune.ofAscii b).char ≠ '<' ∧ (Rune.ofAscii b).char ≠ '>' := by
      rw [Lexer.isDigit] at hdigit
      constructor
      · intro hchar
        rw [hchar] at hdigit
        cases hdigit
      · intro hchar
        rw [hchar] at hdigit
        cases hdigit
    simp [hdigit, hchar]
  · obtain ⟨s, hs, rfl⟩ := hspells.symbol hk
    have hlast : (Text.ascii s).getLast?.any Lexer.isDigit = false ∧
        (Text.ascii s).getLast?.any (fun r => r.char = '<' || r.char = '>') =
          (k = .lt || k = .gt) := by
      cases k <;> cases hs <;> decide
    rw [h, List.getLast?_concat, Option.any_some, Option.any_some] at hlast
    simp [hlast, hk]

end Word

namespace Spaced

variable {rest rs : List Rune} {ws : List Word}

/-- Without what follows, the words are the same. -/
theorem cut (h : Spaced rest rs ws) : Spaced [] rs ws := by
  induction h with
  | blanks hblanks => exact .blanks hblanks
  | @word blanks rs w ws hblanks hends _ ih =>
      refine .word hblanks ?_ ih
      intro r hr
      cases rs with
      | nil => cases hr
      | cons r' rs => exact hends r hr

/-- What follows does not go on with the last word. -/
theorem last_ends (h : Spaced rest rs ws) :
    ∀ a ∈ rs.getLast?, ∀ b ∈ rest.head?, a.continuedBy b = false := by
  induction h with
  | blanks hblanks =>
      intro a ha b _
      exact Rune.continuedBy_of_isBlank (hblanks a (List.mem_of_getLast? ha)) b
  | @word blanks rs w ws _ hends _ ih =>
      intro a ha b hb
      cases rs with
      | nil =>
          obtain ⟨front, last, hlast⟩ := w.exists_last
          rw [hlast, List.append_nil, ← List.append_assoc, List.getLast?_concat] at ha
          obtain rfl := Option.some.inj ha
          rw [← Word.extendedBy_last hlast]
          exact hends b hb
      | cons r rs =>
          apply ih a ?_ b hb
          rwa [← List.append_assoc, List.getLast?_append_of_ne_nil _ (List.cons_ne_nil r rs)] at ha

/-- Whatever does not go on with the last word may follow. -/
theorem extend (h : Spaced [] rs ws)
    (hrest : ∀ a ∈ rs.getLast?, ∀ b ∈ rest.head?, a.continuedBy b = false) :
    Spaced rest rs ws := by
  induction h with
  | blanks hblanks => exact .blanks hblanks
  | @word blanks rs w ws hblanks hends _ ih =>
      cases rs with
      | nil =>
          refine .word hblanks ?_ (ih (by simp))
          intro b hb
          obtain ⟨front, last, hlast⟩ := w.exists_last
          rw [Word.extendedBy_last hlast]
          apply hrest last ?_ b hb
          rw [hlast, List.append_nil, ← List.append_assoc, List.getLast?_concat]
          rfl
      | cons r rs =>
          refine .word hblanks hends (ih ?_)
          intro a ha
          apply hrest a
          rwa [← List.append_assoc, List.getLast?_append_of_ne_nil _ (List.cons_ne_nil r rs)]

/-- Words and blanks are well-formed. -/
theorem ne_replacement (h : Spaced rest rs ws) : ∀ r ∈ rs, r.char ≠ Rune.replacement := by
  induction h with
  | blanks hblanks => exact fun r hr => Rune.ne_replacement_of_isBlank (hblanks r hr)
  | word hblanks _ _ ih =>
      intro r hr
      rcases List.mem_append.mp hr with hr | hr
      · exact Rune.ne_replacement_of_isBlank (hblanks r hr)
      rcases List.mem_append.mp hr with hr | hr
      · exact Word.ne_replacement hr
      · exact ih r hr

end Spaced

namespace Lexer

section Scan

variable {checked : Bool} {loc : Location} {r : Rune} {rest : List Rune}

theorem pairKind?_ends {c d : Char} {k : LexemeKind} (h : pairKind? c d = some k) :
    k ≠ .number ∧ ∀ r, k.extendedBy r = false := by
  unfold pairKind? at h
  split at h <;> cases h <;> exact ⟨by decide, fun _ => rfl⟩

theorem singleKind?_ends {c : Char} {k : LexemeKind} (h : singleKind? c = some k) :
    k ≠ .number ∧ ∀ r : Rune, pairKind? c r.char = none → k.extendedBy r = false := by
  unfold singleKind? at h
  split at h <;> cases h
  case h_7 | h_8 =>
    refine ⟨by decide, fun r hpair => decide_eq_false ?_⟩
    intro hequals
    rw [hequals] at hpair
    cases hpair
  all_goals exact ⟨by decide, fun _ _ => rfl⟩

/-- The longest symbol is taken: what follows it does not make it longer. -/
theorem symbol?_ends {k : LexemeKind} {count : Nat} (h : symbol? r rest = some (k, count)) :
    k ≠ .number ∧ ∀ next ∈ (rest.drop count).head?, k.extendedBy next = false := by
  cases rest with
  | nil =>
      obtain ⟨k', hk', heq⟩ := Option.map_eq_some_iff.mp h
      obtain ⟨rfl, rfl⟩ := Prod.mk.inj heq
      exact ⟨(singleKind?_ends hk').1, by simp⟩
  | cons next rest =>
      rw [symbol?] at h
      cases hpair : pairKind? r.char next.char with
      | some k' =>
          rw [hpair] at h
          obtain ⟨rfl, rfl⟩ := Prod.mk.inj (Option.some.inj h)
          exact ⟨(pairKind?_ends hpair).1, fun next' _ => (pairKind?_ends hpair).2 next'⟩
      | none =>
          rw [hpair] at h
          obtain ⟨k', hk', heq⟩ := Option.map_eq_some_iff.mp h
          obtain ⟨rfl, rfl⟩ := Prod.mk.inj heq
          refine ⟨(singleKind?_ends hk').1, ?_⟩
          intro next' hnext'
          obtain rfl := Option.some.inj hnext'
          exact (singleKind?_ends hk').2 next hpair

theorem number_eq_ok {digits : Text} {lexeme : Lexeme}
    (h : number checked loc digits = .ok lexeme) :
    lexeme.kind = .number ∧ lexeme.text = digits ∧
      (checked = true → Decimal.value digits < UInt64.size) := by
  rw [number] at h
  split at h
  · cases h
  · rename_i hfits
    obtain rfl := Except.ok.inj h
    refine ⟨rfl, rfl, ?_⟩
    intro hchecked
    simpa [hchecked] using hfits

/-- A lexeme is as long as it can be, and fits if numbers are checked. -/
theorem scan_ok {lexeme : Lexeme} {l' : Lexer}
    (h : scan checked loc r rest = (.ok lexeme, l')) :
    ∃ passed, r :: rest = passed ++ l'.rest ∧ lexeme.text = Text.ofRunes passed ∧
      (∀ next ∈ l'.rest.head?, lexeme.kind.extendedBy next = false) ∧
      (checked = true → lexeme.kind = .number → Decimal.value lexeme.text < UInt64.size) := by
  by_cases hdigit : isDigit r = true
  · rw [scan, if_pos hdigit] at h
    obtain ⟨hnumber, rfl⟩ := Prod.mk.inj h
    obtain ⟨hkind, htext, hfits⟩ := number_eq_ok hnumber
    rw [advance, drop_length_takeWhile, hkind, htext]
    refine ⟨r :: rest.takeWhile isDigit, ?_, rfl, ?_, fun hchecked _ => hfits hchecked⟩
    · rw [List.cons_append, List.takeWhile_append_dropWhile]
    · intro next hnext
      have hhead := List.head?_dropWhile_not isDigit rest
      rw [Option.mem_def.mp hnext] at hhead
      exact hhead
  · rw [scan, if_neg hdigit] at h
    cases hsymbol : symbol? r rest with
    | none =>
        rw [hsymbol] at h
        cases h
    | some found =>
        obtain ⟨k, count⟩ := found
        rw [hsymbol] at h
        obtain ⟨rfl, rfl⟩ : _ ∧ _ := by simpa using h
        obtain ⟨hkind, hends⟩ := symbol?_ends hsymbol
        exact ⟨r :: rest.take count, by simp [advance], rfl, hends,
          fun _ hnumber => absurd hnumber hkind⟩

/-- What is scanned is a word of the source. -/
theorem At.scan_word {source : Text} {n : Nat} {lexeme : Lexeme} {l' : Lexer}
    (h : At source n ⟨r :: rest, loc⟩) (hscan : Lexer.scan checked loc r rest = (.ok lexeme, l')) :
    ∃ w : Word, w.Fits checked ∧ r :: rest = w.text.ascii ++ l'.rest ∧
      ∀ next ∈ l'.rest.head?, w.kind.extendedBy next = false := by
  obtain ⟨passed, hsplit, htext, hends, hfits⟩ := scan_ok hscan
  have hspells : lexeme.kind.Spells lexeme.text := by
    obtain ⟨_, _, _, haccounts⟩ := h.scan checked
    rw [hscan] at haccounts
    exact haccounts.2.2
  have hascii : lexeme.text.ascii = passed := by
    obtain ⟨_, _, _, hslice, hrunes⟩ := h.past hsplit
    rw [← Text.runes_of_isAscii hspells.isAscii, htext, ← hslice, hrunes]
  refine ⟨⟨lexeme.kind, lexeme.text, hspells⟩, hfits, ?_, hends⟩
  rw [hascii, hsplit]

end Scan

theorem leading_of_not_isDigit {source : Text} {r : Rune} (h : r ∈ source.runes)
    (hdigit : isDigit r = false) (t : Text) : Decimal.leading (r.bytes ++ t) = [] := by
  rcases Text.mem_runes_cases h with ⟨b, hb, rfl⟩ | ⟨_, hwide⟩
  · rw [isDigit_ofAscii hb] at hdigit
    simp [Decimal.leading, Rune.ofAscii, hdigit]
  · obtain ⟨b, bytes, hbytes⟩ := List.exists_cons_of_ne_nil (Text.bytes_ne_nil h)
    have hb : 0x80 ≤ b := hwide b (by simp [hbytes])
    have hnondigit : Decimal.isDigit b = false := by
      rw [← Bool.not_eq_true]
      intro hb'
      have hle := UInt8.le_trans hb (Decimal.bounds_of_isDigit hb').2
      exact absurd hle (by decide)
    simp [Decimal.leading, hbytes, hnondigit]

/-- The digits among the runes are the digits among the bytes. -/
theorem ofRunes_takeWhile_isDigit (t : Text) :
    Text.ofRunes (t.runes.takeWhile isDigit) = Decimal.leading t := by
  induction t using Text.runes_induction with
  | nil => simp [Text.ofRunes, Decimal.leading]
  | cons r t hrunes ih =>
      have hr : r ∈ Text.runes (r.bytes ++ t) := by simp [hrunes]
      rw [hrunes]
      by_cases hdigit : isDigit r = true
      · obtain ⟨b, hb, hbytes⟩ := bytes_of_isDigit hr hdigit
        rw [List.takeWhile_cons_of_pos hdigit, Text.ofRunes_cons, ih, hbytes]
        simp [Decimal.leading, hb]
      · rw [List.takeWhile_cons_of_neg hdigit, leading_of_not_isDigit hr (by simpa using hdigit)]
        rfl

theorem singleKind?_eq_none_iff (c : Char) :
    singleKind? c = none ↔ c ∉ ['+', '-', '*', '/', '(', ')', '<', '>'] := by
  unfold singleKind?
  split
  case h_9 => simp_all
  all_goals simp

theorem pairKind?_eq_none_iff (c d : Char) :
    pairKind? c d = none ↔ (c ∈ ['=', '!', '<', '>'] → d ≠ '=') := by
  unfold pairKind?
  split
  case h_5 hother =>
    simp only [true_iff]
    rintro hc rfl
    simp_all
  all_goals simp

theorem symbol?_eq_none_iff (r : Rune) (rest : List Rune) :
    symbol? r rest = none ↔ r.char ∉ ['+', '-', '*', '/', '(', ')', '<', '>'] ∧
      (r.char = '=' ∨ r.char = '!' → ∀ next ∈ rest.head?, next.char ≠ '=') := by
  cases rest with
  | nil => simp [symbol?, singleKind?_eq_none_iff]
  | cons next rest =>
      have hnone : symbol? r (next :: rest) = none ↔
          pairKind? r.char next.char = none ∧ singleKind? r.char = none := by
        rw [symbol?]
        cases pairKind? r.char next.char <;> simp
      -- a sign of comparison is a symbol by itself, unlike the first half of a pair
      rw [hnone, pairKind?_eq_none_iff, singleKind?_eq_none_iff]
      grind

section Stuck

variable {checked : Bool} {t : Text} {loc : Location} {r : Rune} {rest : List Rune}

theorem scan_of_isDigit (hrunes : t.runes = r :: rest) (hdigit : isDigit r = true) :
    (scan checked loc r rest).1 = number checked loc (Decimal.leading t) := by
  rw [← ofRunes_takeWhile_isDigit, hrunes, List.takeWhile_cons_of_pos hdigit, scan, if_pos hdigit]

theorem stuck_of_scan {e : LexError} (hrunes : t.runes = r :: rest)
    (hblank : isBlank r.char = false) (h : (scan checked loc r rest).1 = .error e) :
    Stuck checked t e.cause e.text := by
  by_cases hdigit : isDigit r = true
  · rw [scan_of_isDigit hrunes hdigit, number] at h
    split at h
    · rename_i hlarge
      obtain ⟨hchecked, hvalue⟩ := Bool.and_eq_true_iff.mp hlarge
      obtain rfl := Except.error.inj h
      exact .overflow hchecked (of_decide_eq_true hvalue)
    · cases h
  · rw [scan, if_neg hdigit] at h
    cases hsymbol : symbol? r rest with
    | some found =>
        rw [hsymbol] at h
        cases h
    | none =>
        rw [hsymbol] at h
        obtain rfl := Except.error.inj h
        obtain ⟨hsingle, hpair⟩ := (symbol?_eq_none_iff r rest).mp hsymbol
        exact .invalid hrunes hblank (by simpa [isDigit] using hdigit) hsingle hpair

/-- A number that is too large is a number. -/
theorem isDigit_of_overflow (h : UInt64.size ≤ Decimal.value (Decimal.leading t)) :
    ∃ r rest, t.runes = r :: rest ∧ isDigit r = true := by
  rw [← ofRunes_takeWhile_isDigit] at h
  cases hrunes : t.runes with
  | nil =>
      rw [hrunes] at h
      exact absurd h (by decide)
  | cons r rest =>
      refine ⟨r, rest, rfl, ?_⟩
      by_contra hdigit
      rw [hrunes, List.takeWhile_cons_of_neg hdigit] at h
      exact absurd h (by decide)

theorem scan_of_stuck {cause : LexCause} {text : Text} (h : Stuck checked t cause text) :
    ∃ r rest, t.runes = r :: rest ∧ isBlank r.char = false ∧
      ∀ loc, (scan checked loc r rest).1 = .error ⟨cause, loc, text⟩ := by
  cases h with
  | @invalid r rest hrunes hblank hdigit hsymbol hpair =>
      refine ⟨r, rest, hrunes, hblank, ?_⟩
      intro loc
      simp [scan, isDigit, hdigit, (symbol?_eq_none_iff r rest).mpr ⟨hsymbol, hpair⟩]
  | overflow hchecked hvalue =>
      obtain ⟨r, rest, hrunes, hdigit⟩ := isDigit_of_overflow hvalue
      refine ⟨r, rest, hrunes, isBlank_of_isDigit hdigit, ?_⟩
      intro loc
      rw [scan_of_isDigit hrunes hdigit, number, hchecked, if_pos (by simpa using hvalue)]

/-- Where no word starts the lexer fails. -/
theorem lexemes_of_stuck {cause : LexCause} {text : Text} (h : Stuck checked t cause text)
    (loc : Location) : lexemes checked ⟨t.runes, loc⟩ = .error ⟨cause, loc, text⟩ := by
  obtain ⟨r, rest, hrunes, hblank, hscan⟩ := scan_of_stuck h
  have hskip : skipBlanks ⟨t.runes, loc⟩ = ⟨r :: rest, loc⟩ := by
    simp [skipBlanks, hrunes, hblank, Location.past]
  apply lexemes_of_error
  rw [next, hskip]
  exact hscan loc

end Stuck

theorem exists_blanks (l : Lexer) :
    ∃ blanks, (∀ r ∈ blanks, isBlank r.char = true) ∧ l.rest = blanks ++ l.skipBlanks.rest := by
  refine ⟨l.rest.takeWhile (isBlank ·.char), ?_, List.takeWhile_append_dropWhile.symm⟩
  intro r hr
  simpa using List.mem_takeWhile_imp hr

/-- After blanks comes a word, or the end, or something that no word starts with. -/
theorem At.word_cases {source : Text} {n : Nat} {l : Lexer} (h : At source n l)
    (checked : Bool) :
    ∃ blanks, (∀ r ∈ blanks, isBlank r.char = true) ∧
      ((∃ (w : Word) (l' : Lexer) (k : Nat), At source k l' ∧ w.Fits checked ∧
          l.rest = blanks ++ (w.text.ascii ++ l'.rest) ∧
          ∀ next ∈ l'.rest.head?, w.kind.extendedBy next = false) ∨
        ∃ rest, l.rest = blanks ++ rest ∧
          (rest = [] ∨ ∃ cause text, Stuck checked (Text.ofRunes rest) cause text)) := by
  obtain ⟨blanks, hblanks, hsplit⟩ := l.exists_blanks
  obtain ⟨m, _, hat, _⟩ := h.skipBlanks
  refine ⟨blanks, hblanks, ?_⟩
  cases hrest : l.skipBlanks.rest with
  | nil =>
      rw [hrest] at hsplit
      exact .inr ⟨[], hsplit, .inl rfl⟩
  | cons r rest =>
      have hstart : At source m ⟨r :: rest, l.skipBlanks.loc⟩ := by
        rw [← hrest]
        exact hat
      rw [hrest] at hsplit
      cases hanswer : (Lexer.scan checked l.skipBlanks.loc r rest).1 with
      | error e =>
          have hrunes := (Text.runes_of_append hstart.runes_eq).2
          have hstuck := stuck_of_scan hrunes (isBlank_of_skipBlanks hrest) hanswer
          exact .inr ⟨r :: rest, hsplit, .inr ⟨_, _, hstuck⟩⟩
      | ok lexeme =>
          obtain ⟨w, hfits, hword, hends⟩ := hstart.scan_word (Prod.ext hanswer rfl)
          obtain ⟨k, _, hat', _⟩ := hstart.scan checked
          rw [hword] at hsplit
          exact .inl ⟨w, _, k, hat', hfits, hsplit, hends⟩

/-- What is left to read is words and blanks, and then nothing or something that no
word starts with. Induction on how much is left; every word makes it less. -/
theorem At.exists_spaced {source : Text} {n : Nat} {l : Lexer} (h : At source n l)
    (checked : Bool) :
    ∃ rs ws rest, l.rest = rs ++ rest ∧ Spaced rest rs ws ∧ (∀ w ∈ ws, w.Fits checked) ∧
      (rest = [] ∨ ∃ cause text, Stuck checked (Text.ofRunes rest) cause text) := by
  induction hlength : l.rest.length using Nat.strong_induction_on generalizing l n with
  | _ length ih =>
      obtain ⟨blanks, hblanks, hword | ⟨rest, hsplit, hstop⟩⟩ := h.word_cases checked
      · obtain ⟨w, l', k, hat, hfits, hsplit, hends⟩ := hword
        have hless : l'.rest.length < length := by
          have hpos : 0 < w.text.length := List.length_pos_of_ne_nil w.spells.ne_nil
          rw [← hlength, hsplit, List.length_append, List.length_append, Text.ascii,
            List.length_map]
          omega
        obtain ⟨rs, ws, rest, hrest, hspaced, hfits', hstop⟩ := ih _ hless hat rfl
        rw [hrest] at hsplit hends
        refine ⟨blanks ++ (w.text.ascii ++ rs), w :: ws, rest, ?_, .word hblanks hends hspaced,
          List.forall_mem_cons.mpr ⟨hfits, hfits'⟩, hstop⟩
        rw [hsplit, List.append_assoc, List.append_assoc]
      · exact ⟨blanks, [], rest, hsplit, .blanks hblanks, by simp, hstop⟩

end Lexer

/-- The source up to byte `k` is words and blanks, also with the rest of it present. -/
structure Scanned (checked : Bool) (source : Text) (k : Nat) : Prop where
  le_length : k ≤ source.length
  runes_eq : source.runes = Text.runes (source.take k) ++ Text.runes (source.drop k)
  spaced : ∃ ws, Spaced (Text.runes (source.drop k)) (Text.runes (source.take k)) ws ∧
    ∀ w ∈ ws, w.Fits checked

theorem exists_scanned (checked : Bool) (source : Text) :
    ∃ k, Scanned checked source k ∧
      (source.drop k = [] ∨ ∃ cause text, Stuck checked (source.drop k) cause text) := by
  obtain ⟨rs, ws, rest, hrunes, hspaced, hfits, hstop⟩ :=
    (Lexer.at_ofText source).exists_spaced checked
  have hrunes : source.runes = rs ++ rest := hrunes
  obtain ⟨hrs, hrest⟩ := Text.runes_of_append hrunes
  have hsource : source = Text.ofRunes rs ++ Text.ofRunes rest := by
    rw [← Text.ofRunes_append, ← hrunes, Text.ofRunes_runes]
  have htake : source.take (Text.ofRunes rs).length = Text.ofRunes rs := by
    conv => lhs; rw [hsource]
    exact List.take_left
  have hdrop : source.drop (Text.ofRunes rs).length = Text.ofRunes rest := by
    conv => lhs; rw [hsource]
    exact List.drop_left
  refine ⟨(Text.ofRunes rs).length, ⟨?_, ?_, ws, ?_, hfits⟩, ?_⟩
  · rw [hsource, List.length_append]
    exact Nat.le_add_right _ _
  · rw [htake, hdrop, hrs, hrest, hrunes]
  · rw [htake, hdrop, hrs, hrest]
    exact hspaced
  · rw [hdrop]
    rcases hstop with rfl | hstuck
    · exact .inl rfl
    · exact .inr hstuck

namespace Scanned

variable {checked : Bool} {source : Text} {k : Nat}

/-- The words are found without the rest of the source, too. -/
theorem tokenize_take (h : Scanned checked source k) :
    ∃ ls, tokenize checked (source.take k) = .ok ls := by
  obtain ⟨ws, hspaced, hfits⟩ := h.spaced
  obtain ⟨ls, _, hlexemes⟩ := hspaced.cut.lexemes_eq hfits .start
  exact ⟨_, hlexemes⟩

theorem not_continued (h : Scanned checked source k) :
    Text.continuedBy (source.take k) (source.drop k) = false := by
  obtain ⟨ws, hspaced, _⟩ := h.spaced
  exact Text.continuedBy_eq_false_iff.mpr hspaced.last_ends

theorem tokenize_eq {cause : LexCause} {text : Text} (h : Scanned checked source k)
    (hstuck : Stuck checked (source.drop k) cause text) :
    tokenize checked source = .error ⟨cause, .after (source.take k), text⟩ := by
  obtain ⟨ws, hspaced, hfits⟩ := h.spaced
  obtain ⟨ls, _, hyields⟩ := hspaced.yields hfits .start
  have hloc : Location.start.past (Text.runes (source.take k)) = .after (source.take k) := by
    rw [Location.past_start_eq_after h.runes_eq, Text.ofRunes_runes]
  rw [hloc] at hyields
  rw [tokenize, Lexer.ofText, h.runes_eq, hyields, Lexer.lexemes_of_stuck hstuck]
  rfl

end Scanned

section Tokenize

variable {checked : Bool} {source : Text}

/-- Every error comes after words and blanks, where no word starts. -/
theorem scanned_of_error {e : LexError} (h : tokenize checked source = .error e) :
    ∃ k, Scanned checked source k ∧ e.loc = .after (source.take k) ∧
      Stuck checked (source.drop k) e.cause e.text := by
  obtain ⟨k, hscanned, hend | ⟨cause, text, hstuck⟩⟩ := exists_scanned checked source
  · obtain ⟨ls, hls⟩ := hscanned.tokenize_take
    rw [List.take_of_length_le (List.drop_eq_nil_iff.mp hend), h] at hls
    cases hls
  · rw [hscanned.tokenize_eq hstuck] at h
    obtain rfl := Except.error.inj h
    exact ⟨k, hscanned, rfl, hstuck⟩

/-- A source without an error is words and blanks. -/
theorem spaced_of_ok {ls : List Lexeme} (h : tokenize checked source = .ok ls) :
    ∃ ws, Spaced [] source.runes ws ∧ ∀ w ∈ ws, w.Fits checked := by
  obtain ⟨k, hscanned, hend | ⟨cause, text, hstuck⟩⟩ := exists_scanned checked source
  · obtain ⟨ws, hspaced, hfits⟩ := hscanned.spaced
    rw [List.take_of_length_le (List.drop_eq_nil_iff.mp hend)] at hspaced
    exact ⟨ws, hspaced.cut, hfits⟩
  · rw [hscanned.tokenize_eq hstuck] at h
    cases h

/-- The words of the front of a source are words of the source, unless the last of
them goes on. -/
theorem scanned_of_tokenize_take {k : Nat} {ls : List Lexeme} (hk : k ≤ source.length)
    (h : tokenize checked (source.take k) = .ok ls)
    (hapart : Text.continuedBy (source.take k) (source.drop k) = false) :
    Scanned checked source k := by
  obtain ⟨ws, hspaced, hfits⟩ := spaced_of_ok h
  refine ⟨hk, ?_, ws, hspaced.extend (Text.continuedBy_eq_false_iff.mp hapart), hfits⟩
  rw [← Text.runes_append hspaced.ne_replacement, List.take_append_drop]

theorem Stuck.ne_nil {t text : Text} {cause : LexCause} (h : Stuck checked t cause text) :
    t ≠ [] := by
  rintro rfl
  obtain ⟨r, rest, hrunes, _⟩ := Lexer.scan_of_stuck h
  simp at hrunes

end Tokenize

/-- Lexical errors are raised exactly where scanning becomes impossible. An error is
where no word starts, for the reason that it gives, and the source up to there has no
error. Conversely, where no word starts after a front of the source without an error,
there is that error, unless and only unless the front ends in a word that goes on. -/
theorem tokenize_error_exact (checked : Bool) (source : Text) :
    (∀ e, tokenize checked source = .error e →
      ∃ k ≤ source.length, e.loc = .after (source.take k) ∧
        (∃ ls, tokenize checked (source.take k) = .ok ls) ∧
        Stuck checked (source.drop k) e.cause e.text) ∧
    ∀ k cause text, (∃ ls, tokenize checked (source.take k) = .ok ls) →
      Stuck checked (source.drop k) cause text →
      (tokenize checked source = .error ⟨cause, .after (source.take k), text⟩ ↔
        Text.continuedBy (source.take k) (source.drop k) = false) := by
  constructor
  · intro e he
    obtain ⟨k, hscanned, hloc, hstuck⟩ := scanned_of_error he
    exact ⟨k, hscanned.le_length, hloc, hscanned.tokenize_take, hstuck⟩
  · rintro k cause text ⟨ls, hls⟩ hstuck
    have hk : k ≤ source.length := by
      by_contra hlt
      exact hstuck.ne_nil (List.drop_eq_nil_iff.mpr (by omega))
    constructor
    · intro he
      obtain ⟨k', hscanned, hloc, _⟩ := scanned_of_error he
      obtain rfl : k = k' := by
        have hoffset := congrArg Location.offset hloc
        have hk' := hscanned.le_length
        simp only [Location.after, List.length_take] at hoffset
        omega
      exact hscanned.not_continued
    · intro hapart
      exact (scanned_of_tokenize_take hk hls hapart).tokenize_eq hstuck

/-- A number that is too large, with a zero in front. -/
def paddedOverflow : Text := "1<=018446744073709551616"

/-- The error is at the zero. After it the digits are too large as well, but they
go on with the number. -/
theorem tokenize_paddedOverflow :
    tokenize true paddedOverflow =
        .error ⟨.numberOverflow, .after "1<=", "018446744073709551616"⟩ ∧
      tokenize true paddedOverflow ≠
        .error ⟨.numberOverflow, .after "1<=0", "18446744073709551616"⟩ ∧
      ∃ k ≤ paddedOverflow.length, Location.after "1<=" = .after (paddedOverflow.take k) ∧
        (∃ ls, tokenize true (paddedOverflow.take k) = .ok ls) ∧
        Stuck true (paddedOverflow.drop k) .numberOverflow "018446744073709551616" := by
  obtain ⟨hfails, hexact⟩ := tokenize_error_exact true paddedOverflow
  have hzero : Stuck true (paddedOverflow.drop 3) .numberOverflow "018446744073709551616" :=
    .overflow rfl (by decide +kernel)
  have hdigits : Stuck true (paddedOverflow.drop 4) .numberOverflow "18446744073709551616" :=
    .overflow rfl (by decide +kernel)
  have herror := (hexact 3 _ _ ⟨_, by with_unfolding_all rfl⟩ hzero).mpr
    (by with_unfolding_all rfl)
  refine ⟨herror, ?_, hfails _ herror⟩
  intro hlater
  have hcontinued := (hexact 4 _ _ ⟨_, by with_unfolding_all rfl⟩ hdigits).mp hlater
  have hdigit : Text.continuedBy (paddedOverflow.take 4) (paddedOverflow.drop 4) = true := by
    with_unfolding_all rfl
  rw [hdigit] at hcontinued
  cases hcontinued

end ArithAsm
