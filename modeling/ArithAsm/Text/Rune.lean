import ArithAsm.Text

/-!
A text is read as a sequence of runes. A well-formed UTF-8 sequence is one
rune; a byte that starts no well-formed sequence is a rune of its own, read as
the replacement character. Every rune keeps the bytes it was read from, so the
runes of a text always concatenate to that text.
-/

namespace ArithAsm

structure Rune where
  char : Char
  bytes : Text
  deriving DecidableEq, Repr

namespace Rune

/-- U+FFFD, which stands for a byte outside every well-formed sequence. -/
def replacement : Char := '\uFFFD'

def isContinuation (b : UInt8) : Bool :=
  0x80 ≤ b && b < 0xC0

/-- Appends the six payload bits of each of `count` continuation bytes. -/
def continued (value : Nat) : Nat → Text → Option Nat
  | 0, _ => some value
  | _ + 1, [] => none
  | count + 1, b :: rest =>
      if isContinuation b then continued (value * 64 + (b.toNat - 0x80)) count rest
      else none

/-- The scalar value of a multi-byte sequence with `count` bytes after the
first. Encodings longer than needed, surrogates and values above U+10FFFF are
refused. -/
def scalar? (lead count least : Nat) (rest : Text) : Option (Char × Nat) :=
  match continued lead count rest with
  | some value =>
      if least ≤ value ∧ value.isValidChar then some (Char.ofNat value, count) else none
  | none => none

/-- The character of the well-formed sequence that starts with `b`, and how
many of the following bytes belong to it. -/
def sequence? (b : UInt8) (rest : Text) : Option (Char × Nat) :=
  if b < 0x80 then some (Char.ofNat b.toNat, 0)
  else if b < 0xC0 then none
  else if b < 0xE0 then scalar? (b.toNat - 0xC0) 1 0x80 rest
  else if b < 0xF0 then scalar? (b.toNat - 0xE0) 2 0x800 rest
  else if b < 0xF8 then scalar? (b.toNat - 0xF0) 3 0x10000 rest
  else none

/-- The first rune of a text that starts with `b`, and the text after it. -/
def first (b : UInt8) (rest : Text) : Rune × Text :=
  match sequence? b rest with
  | some (c, count) => (⟨c, b :: rest.take count⟩, rest.drop count)
  | none => (⟨replacement, [b]⟩, rest)

theorem first_length_le (b : UInt8) (rest : Text) :
    (first b rest).2.length ≤ rest.length := by
  unfold first
  split <;> simp

theorem first_bytes_append (b : UInt8) (rest : Text) :
    (first b rest).1.bytes ++ (first b rest).2 = b :: rest := by
  unfold first
  split <;> simp

def width (r : Rune) : Nat :=
  r.bytes.length

/-- Whether the rune is a byte that belongs to no well-formed sequence. -/
def isStray (r : Rune) : Bool :=
  r.char == replacement && r.bytes.length == 1

end Rune

namespace Text

def runes : Text → List Rune
  | [] => []
  | b :: rest => (Rune.first b rest).1 :: runes (Rune.first b rest).2
termination_by t => t.length
decreasing_by
  have := Rune.first_length_le b rest
  simp only [List.length_cons]
  omega

/-- The bytes that a sequence of runes was read from. -/
def ofRunes (rs : List Rune) : Text :=
  rs.flatMap Rune.bytes

/-- Reading runes loses no byte, well-formed or not. -/
@[simp] theorem ofRunes_runes (t : Text) : ofRunes t.runes = t := by
  fun_induction runes t with
  | case1 => rfl
  | case2 b rest ih =>
      rw [ofRunes] at ih
      rw [ofRunes, List.flatMap_cons, ih, Rune.first_bytes_append]

def runeCount (t : Text) : Nat :=
  t.runes.length

/-- The characters of a text, or nothing if some byte is not UTF-8. -/
def chars? (t : Text) : Option (List Char) :=
  t.runes.mapM fun r => if r.isStray then none else some r.char

def ofChars (cs : List Char) : Text :=
  cs.flatMap ofChar

end Text

end ArithAsm
