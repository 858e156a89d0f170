import ArithAsm.Proofs.Decimal
import ArithAsm.Proofs.Lexing

/-!
The lexer finds the lexemes that were spelled out. One call takes the blanks and
the whole of a spelled lexeme, provided that what follows does not make the
lexeme longer.
-/

namespace ArithAsm

namespace LexemeKind

/-- Whether a rune right after a lexeme of the kind would become part of it. -/
def extendedBy (k : LexemeKind) (r : Rune) : Bool :=
  match k with
  | number => Lexer.isDigit r
  | lt | gt => r.char = '='
  | _ => false

theorem Spells.symbol {k : LexemeKind} {t : Text} (h : k.Spells t) (hk : k ≠ .number) :
    ∃ s, k.symbol? = some s ∧ t = Text.ofString s := by
  cases k with
  | number => exact absurd rfl hk
  | _ => exact h

/-- A symbol is one character, or one character and an equals sign. -/
theorem symbol?_chars {k : LexemeKind} {s : String} (h : k.symbol? = some s) :
    ∃ c, (Lexer.singleKind? c = some k ∧ Text.ofString s = Text.ofChar c) ∨
      (Lexer.pairKind? c '=' = some k ∧ Text.ofString s = Text.ofChar c ++ Text.ofChar '=') := by
  refine ⟨s.toList.headD ' ', ?_⟩
  cases k <;> cases h <;> decide

end LexemeKind

namespace Lexeme

/-- The lexeme of a kind that is spelled by a text. -/
def spelled (k : LexemeKind) (t : Text) (loc : Location) : Lexeme :=
  ⟨k, t, if k = .number then .ofNat (Decimal.value t) else 0, loc⟩

end Lexeme

namespace Lexer

theorem pairKind?_eq_none {c d : Char} {k : LexemeKind} (h : singleKind? c = some k)
    (hd : k = .lt ∨ k = .gt → d ≠ '=') : pairKind? c d = none := by
  unfold pairKind?
  split
  · cases h
  · cases h
  · cases h
    exact absurd rfl (hd (.inl rfl))
  · cases h
    exact absurd rfl (hd (.inr rfl))
  · rfl

theorem singleKind?_char {c : Char} {k : LexemeKind} (h : singleKind? c = some k) :
    c.isDigit = false ∧ isBlank c = false := by
  unfold singleKind? at h
  split at h <;> cases h <;> decide

theorem pairKind?_char {c d : Char} {k : LexemeKind} (h : pairKind? c d = some k) :
    c.isDigit = false ∧ isBlank c = false := by
  unfold pairKind? at h
  split at h <;> cases h <;> decide

theorem isDigit_of_digit {b : UInt8} (h : Decimal.isDigit b = true) :
    isDigit (.ofAscii b) = true := by
  rw [isDigit_ofAscii, h]
  exact UInt8.lt_of_le_of_lt (Decimal.bounds_of_isDigit h).2 (by decide)

theorem isBlank_of_isDigit {r : Rune} (h : isDigit r = true) : isBlank r.char = false := by
  have hbounds : 48 ≤ r.char.toNat ∧ r.char.toNat ≤ 57 := by
    simpa [isDigit, Char.isDigit, UInt32.le_iff_toNat_le] using h
  have hdigits : ∀ n < 58, 48 ≤ n → isBlank (Char.ofNat n) = false := by
    decide
  have hblank := hdigits r.char.toNat (by omega) hbounds.1
  rwa [Char.ofNat_toNat] at hblank

theorem isDigit_of_isBlank {r : Rune} (h : isBlank r.char = true) : isDigit r = false := by
  rw [← Bool.not_eq_true]
  intro hdigit
  rw [isBlank_of_isDigit hdigit] at h
  cases h

section Scan

variable (checked : Bool) (loc : Location) {k : LexemeKind} {t : Text} {rest : List Rune}

theorem symbol?_single {c : Char} (h : singleKind? c = some k)
    (hrest : ∀ r ∈ rest.head?, k.extendedBy r = false) (bytes : Text) :
    symbol? ⟨c, bytes⟩ rest = some (k, 0) := by
  cases rest with
  | nil => simp [symbol?, h]
  | cons r rest =>
      have hpair : pairKind? c r.char = none := by
        apply pairKind?_eq_none h
        have hr := hrest r rfl
        rintro (rfl | rfl)
        · simpa [LexemeKind.extendedBy] using hr
        · simpa [LexemeKind.extendedBy] using hr
      simp [symbol?, hpair, h]

theorem scan_of_symbol? {c : Char} {rs : List Rune} (hdigit : c.isDigit = false)
    (hsymbol : symbol? ⟨c, Text.ofChar c⟩ (rs ++ rest) = some (k, rs.length)) :
    scan checked loc ⟨c, Text.ofChar c⟩ (rs ++ rest) =
      (.ok ⟨k, Text.ofChar c ++ Text.ofRunes rs, 0, loc⟩,
        ⟨rest, loc.past (⟨c, Text.ofChar c⟩ :: rs)⟩) := by
  simp [scan, isDigit, hdigit, hsymbol, advance]

theorem scan_number {b : UInt8} (h : LexemeKind.number.Spells (b :: t))
    (hrest : ∀ r ∈ rest.head?, isDigit r = false)
    (hfits : checked = true → Decimal.value (b :: t) < UInt64.size) :
    scan checked loc (.ofAscii b) (t.ascii ++ rest) =
      (.ok (.spelled .number (b :: t) loc), ⟨rest, loc.past (Text.ascii (b :: t))⟩) := by
  have hdigits : ∀ c ∈ b :: t, isDigit (.ofAscii c) = true :=
    fun c hc => isDigit_of_digit (h.2 c hc)
  have htake : (t.ascii ++ rest).takeWhile isDigit = t.ascii := by
    have hall : ∀ r ∈ t.ascii, isDigit r = true := by
      intro r hr
      obtain ⟨c, hc, rfl⟩ := List.mem_map.mp hr
      exact hdigits c (List.mem_cons_of_mem b hc)
    rw [List.takeWhile_append_of_pos hall]
    cases rest with
    | nil => simp
    | cons r rest => simp [hrest r rfl]
  have htext : Text.ofRunes (.ofAscii b :: t.ascii) = b :: t := Text.ofRunes_ascii (b :: t)
  have hnumber : number checked loc (b :: t) = .ok (.spelled .number (b :: t) loc) := by
    have hleading : Decimal.leading (b :: t) = b :: t := List.takeWhile_eq_self_iff.mpr h.2
    rw [number, if_neg]
    · rw [scanNumber_eq, hleading]
      rfl
    · simp only [Bool.and_eq_true, decide_eq_true_eq, not_and, Nat.not_le]
      exact hfits
  simp only [scan, hdigits b List.mem_cons_self, if_true, htake, htext, hnumber, advance,
    List.drop_left, List.take_left, Text.ascii_cons]

theorem scan_symbol {s : String} (hs : k.symbol? = some s)
    (hrest : ∀ r ∈ rest.head?, k.extendedBy r = false) :
    ∃ r rs, Text.ascii s = r :: rs ∧ isBlank r.char = false ∧
      scan checked loc r (rs ++ rest) = (.ok ⟨k, s, 0, loc⟩, ⟨rest, loc.past (Text.ascii s)⟩) := by
  obtain ⟨c, ⟨hsingle, htext⟩ | ⟨hpair, htext⟩⟩ := LexemeKind.symbol?_chars hs
  · obtain ⟨hdigit, hblank⟩ := singleKind?_char hsingle
    have hrunes : Text.ascii s = [⟨c, Text.ofChar c⟩] := by
      rw [htext, Text.ascii_ofChar (singleKind?_spells hsingle).1]
    have hsymbol : symbol? ⟨c, Text.ofChar c⟩ ([] ++ rest) = some (k, 0) :=
      symbol?_single hsingle hrest (Text.ofChar c)
    refine ⟨_, [], hrunes, hblank, ?_⟩
    rw [scan_of_symbol? checked loc hdigit hsymbol, hrunes, htext]
    simp [Text.ofRunes]
  · obtain ⟨hdigit, hblank⟩ := pairKind?_char hpair
    have hrunes : Text.ascii s = [⟨c, Text.ofChar c⟩, ⟨'=', Text.ofChar '='⟩] := by
      rw [htext, Text.ascii_append, Text.ascii_ofChar (pairKind?_spells hpair).1,
        Text.ascii_ofChar (pairKind?_spells hpair).2.1, List.singleton_append]
    have hsymbol : symbol? ⟨c, Text.ofChar c⟩ ([⟨'=', Text.ofChar '='⟩] ++ rest) =
        some (k, 1) := by
      simp [symbol?, hpair]
    refine ⟨_, _, hrunes, hblank, ?_⟩
    rw [scan_of_symbol? checked loc hdigit hsymbol, hrunes, htext]
    simp [Text.ofRunes]

/-- A spelled lexeme is scanned as a whole, from its first rune on. -/
theorem scan_spelled (h : k.Spells t) (hrest : ∀ r ∈ rest.head?, k.extendedBy r = false)
    (hfits : checked = true → k = .number → Decimal.value t < UInt64.size) :
    ∃ r rs, t.ascii = r :: rs ∧ isBlank r.char = false ∧
      scan checked loc r (rs ++ rest) = (.ok (.spelled k t loc), ⟨rest, loc.past t.ascii⟩) := by
  by_cases hk : k = .number
  · subst hk
    obtain ⟨b, t, rfl⟩ := List.exists_cons_of_ne_nil h.1
    have hscan := scan_number checked loc h hrest fun hchecked => hfits hchecked rfl
    have hdigit := isDigit_of_digit (h.2 b List.mem_cons_self)
    exact ⟨.ofAscii b, Text.ascii t, rfl, isBlank_of_isDigit hdigit, hscan⟩
  · obtain ⟨s, hs, rfl⟩ := h.symbol hk
    rw [Lexeme.spelled, if_neg hk]
    exact scan_symbol checked loc hs hrest

theorem next_spelled {blanks : List Rune} (hblanks : ∀ r ∈ blanks, isBlank r.char = true)
    (h : k.Spells t) (hrest : ∀ r ∈ rest.head?, k.extendedBy r = false)
    (hfits : checked = true → k = .number → Decimal.value t < UInt64.size) :
    next checked ⟨blanks ++ (t.ascii ++ rest), loc⟩ =
      (.ok (.spelled k t (loc.past blanks)), ⟨rest, (loc.past blanks).past t.ascii⟩) := by
  obtain ⟨r, rs, hrunes, hblank, hscan⟩ := scan_spelled checked (loc.past blanks) h hrest hfits
  have hskip : skipBlanks ⟨blanks ++ (t.ascii ++ rest), loc⟩ =
      ⟨r :: (rs ++ rest), loc.past blanks⟩ := by
    simp [skipBlanks, hrunes, List.dropWhile_append_of_pos hblanks,
      List.takeWhile_append_of_pos hblanks, hblank]
  rw [next, hskip]
  exact hscan

end Scan

/-- The lexemes `ls` come first, and reading goes on at `l'`. -/
def Yields (checked : Bool) (l : Lexer) (ls : List Lexeme) (l' : Lexer) : Prop :=
  l.lexemes checked = (l'.lexemes checked).map (ls ++ ·)

section Yields

variable {checked : Bool} {l l' l'' : Lexer} {ls ls' : List Lexeme}

theorem Yields.trans (h : Yields checked l ls l') (h' : Yields checked l' ls' l'') :
    Yields checked l (ls ++ ls') l'' := by
  unfold Yields at *
  simp only [h, h', Result.map_map, List.append_assoc]

theorem Yields.lexemes_eq {loc : Location} (h : Yields checked l ls ⟨[], loc⟩) :
    l.lexemes checked = .ok (ls ++ [.eofAt loc]) := by
  have heof : lexemes checked ⟨[], loc⟩ = .ok [.eofAt loc] := lexemes_of_eof rfl rfl
  rw [h, heof, Result.map_ok]

variable {k : LexemeKind} {blanks : List Rune} (hblanks : ∀ r ∈ blanks, isBlank r.char = true)
include hblanks

theorem yields_spelled {t : Text} (h : k.Spells t) (loc : Location) (rest : List Rune)
    (hrest : ∀ r ∈ rest.head?, k.extendedBy r = false)
    (hfits : checked = true → k = .number → Decimal.value t < UInt64.size) :
    Yields checked ⟨blanks ++ (t.ascii ++ rest), loc⟩ [.spelled k t (loc.past blanks)]
      ⟨rest, (loc.past blanks).past t.ascii⟩ := by
  have hnext := next_spelled checked loc hblanks h hrest hfits
  rw [Yields, lexemes_of_ok (congrArg Prod.fst hnext) h.ne_eof, hnext]
  rfl

theorem yields_symbol {s : String} (hs : k.symbol? = some s) (loc : Location) (rest : List Rune)
    (hrest : ∀ r ∈ rest.head?, k.extendedBy r = false) :
    ∃ lexeme loc', lexeme.kind = k ∧
      Yields checked ⟨blanks ++ (Text.ascii s ++ rest), loc⟩ [lexeme] ⟨rest, loc'⟩ := by
  have hk : k ≠ .number := by
    rintro rfl
    cases hs
  have hspells : k.Spells s := by
    cases k with
    | number => exact absurd rfl hk
    | _ => exact ⟨s, hs, rfl⟩
  exact ⟨_, _, rfl, yields_spelled hblanks hspells loc rest hrest
    fun _ hnumber => absurd hnumber hk⟩

end Yields

end Lexer

end ArithAsm
