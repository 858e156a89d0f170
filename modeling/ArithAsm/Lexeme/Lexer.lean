import ArithAsm.Lexeme
import ArithAsm.Text.Blank

/-!
The lexer splits a source text into lexemes by longest match. Its state is the
runes still to be read and the location they start at, so reading can go on
after an error: an error uses up the runes it is about, and nothing else.
-/

namespace ArithAsm

/-- Folds the digits at the front of a text into a word, which wraps around, and
counts them. -/
def scanDigits : UInt64 → Nat → Text → UInt64 × Nat
  | n, count, [] => (n, count)
  | n, count, b :: rest =>
      if Decimal.isDigit b then
        scanDigits (n * 10 + UInt64.ofNat (Decimal.digitValue b)) (count + 1) rest
      else (n, count)

/-- The number at the front of a text, modulo 2^64, and how many bytes its digits
take. -/
def scanNumber (t : Text) : UInt64 × Nat :=
  scanDigits 0 0 t

/-- The word keeps up with the number that it stands for, digit by digit. -/
theorem scanDigits_ofNat (n count : Nat) (t : Text) :
    scanDigits (UInt64.ofNat n) count t =
      (UInt64.ofNat ((Decimal.leading t).foldl (fun n b => n * 10 + Decimal.digitValue b) n),
        count + (Decimal.leading t).length) := by
  induction t generalizing n count with
  | nil => rfl
  | cons b rest ih =>
      by_cases hdigit : Decimal.isDigit b = true
      · have hword : UInt64.ofNat n * 10 + UInt64.ofNat (Decimal.digitValue b) =
            UInt64.ofNat (n * 10 + Decimal.digitValue b) := by
          rw [UInt64.ofNat_add, UInt64.ofNat_mul]
          rfl
        rw [scanDigits, if_pos hdigit, hword, ih]
        simp only [Decimal.leading, List.takeWhile_cons_of_pos hdigit, List.foldl_cons,
          List.length_cons]
        rw [Nat.add_right_comm, Nat.add_assoc]
      · simp [scanDigits, Decimal.leading, hdigit]

theorem scanNumber_eq (t : Text) :
    scanNumber t =
      (UInt64.ofNat (Decimal.value (Decimal.leading t)), (Decimal.leading t).length) := by
  have hfold := scanDigits_ofNat 0 0 t
  rw [Nat.zero_add] at hfold
  exact hfold

structure Lexer where
  rest : List Rune
  loc : Location
  deriving DecidableEq, Repr

namespace Lexer

def ofText (t : Text) : Lexer :=
  ⟨t.runes, .start⟩

def isDigit (r : Rune) : Bool :=
  r.char.isDigit

/-- Comparisons spelled with two characters. -/
def pairKind? (first second : Char) : Option LexemeKind :=
  match first, second with
  | '=', '=' => some .eq
  | '!', '=' => some .ne
  | '<', '=' => some .le
  | '>', '=' => some .ge
  | _, _ => none

def singleKind? (c : Char) : Option LexemeKind :=
  match c with
  | '+' => some .plus
  | '-' => some .minus
  | '*' => some .star
  | '/' => some .slash
  | '(' => some .leftParen
  | ')' => some .rightParen
  | '<' => some .lt
  | '>' => some .gt
  | _ => none

/-- The kind of the longest operator or parenthesis that starts with `r`, and
how many of the following runes belong to it. -/
def symbol? (r : Rune) (rest : List Rune) : Option (LexemeKind × Nat) :=
  match rest with
  | next :: _ =>
      match pairKind? r.char next.char with
      | some kind => some (kind, 1)
      | none => (singleKind? r.char).map (·, 0)
  | [] => (singleKind? r.char).map (·, 0)

/-- The state after the rune `r` and `count` of the runes that follow it. -/
def advance (loc : Location) (r : Rune) (rest : List Rune) (count : Nat) : Lexer :=
  ⟨rest.drop count, loc.past (r :: rest.take count)⟩

/-- Reads a number. Its value is taken modulo 2^64 unless numbers are checked;
a checked number that does not fit is an error. -/
def number (checked : Bool) (loc : Location) (digits : Text) : Except LexError Lexeme :=
  let value := Decimal.value digits
  if checked && UInt64.size ≤ value then .error ⟨.numberOverflow, loc, digits⟩
  else .ok ⟨.number, digits, (scanNumber digits).1, loc⟩

/-- Reads the lexeme that starts with the rune `r`, which is not blank. -/
def scan (checked : Bool) (loc : Location) (r : Rune) (rest : List Rune) :
    Except LexError Lexeme × Lexer :=
  if isDigit r then
    let digits := rest.takeWhile isDigit
    (number checked loc (Text.ofRunes (r :: digits)), advance loc r rest digits.length)
  else
    match symbol? r rest with
    | some (kind, count) =>
        (.ok ⟨kind, Text.ofRunes (r :: rest.take count), 0, loc⟩, advance loc r rest count)
    | none => (.error ⟨.invalidToken, loc, Text.ofChar r.char⟩, advance loc r rest 0)

def skipBlanks (l : Lexer) : Lexer :=
  ⟨l.rest.dropWhile (isBlank ·.char), l.loc.past (l.rest.takeWhile (isBlank ·.char))⟩

/-- Reads one lexeme. At the end of the text this is the end marker, as often
as it is asked for. -/
def next (checked : Bool) (l : Lexer) : Except LexError Lexeme × Lexer :=
  match l.skipBlanks.rest with
  | [] => (.ok (.eofAt l.skipBlanks.loc), l.skipBlanks)
  | r :: rest => scan checked l.skipBlanks.loc r rest

theorem scan_rest_length_le (checked : Bool) (loc : Location) (r : Rune) (rest : List Rune) :
    (scan checked loc r rest).2.rest.length ≤ rest.length := by
  unfold scan
  split
  · simp [advance]
  · split <;> simp [advance]

/-- A call that does not answer the end marker uses up at least one rune. -/
theorem next_rest_length_lt {checked : Bool} {l l' : Lexer} {lexeme : Lexeme}
    (h : l.next checked = (.ok lexeme, l')) (hkind : lexeme.kind ≠ .eof) :
    l'.rest.length < l.rest.length := by
  unfold next at h
  have hskip : l.skipBlanks.rest.length ≤ l.rest.length :=
    (List.dropWhile_sublist _).length_le
  split at h
  · simp only [Prod.mk.injEq, Except.ok.injEq] at h
    exact absurd (by rw [← h.1]; rfl) hkind
  · rename_i r rest hrest
    have hscan := scan_rest_length_le checked l.skipBlanks.loc r rest
    simp only [h] at hscan
    rw [hrest] at hskip
    simp only [List.length_cons] at hskip
    omega

/-- All lexemes up to and with the end marker, or the first error. -/
def lexemes (checked : Bool) (l : Lexer) : Except LexError (List Lexeme) :=
  match _h : l.next checked with
  | (.error e, _) => .error e
  | (.ok lexeme, l') =>
      if _hkind : lexeme.kind = .eof then .ok [lexeme]
      else (lexemes checked l').map (lexeme :: ·)
termination_by l.rest.length
decreasing_by exact next_rest_length_lt ‹_› ‹_›

end Lexer

/-- The lexemes of a source text, the end marker last. -/
def tokenize (checked : Bool) (source : Text) : Except LexError (List Lexeme) :=
  (Lexer.ofText source).lexemes checked

end ArithAsm
