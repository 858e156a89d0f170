import ArithAsm.Text.Rune
import ArithAsm.Text.Printable
import ArithAsm.Text.Hex

/-!
Text between double quotes, and single characters between single quotes.
Printable characters stay as they are, apart from the quote in use and the
backslash. A byte that is not UTF-8 is written as two hexadecimal digits.
-/

namespace ArithAsm.Quoted

/-- The escape of a character that is neither printable nor the quote. -/
def control (c : Char) : Text :=
  match c.toNat with
  | 7 => "\\a"
  | 8 => "\\b"
  | 9 => "\\t"
  | 10 => "\\n"
  | 11 => "\\v"
  | 12 => "\\f"
  | 13 => "\\r"
  | n =>
      if n < 0x80 then "\\x" ++ Hex.ofNat .lower 2 n
      else if n < 0x10000 then "\\u" ++ Hex.ofNat .lower 4 n
      else "\\U" ++ Hex.ofNat .lower 8 n

def character (quote c : Char) : Text :=
  if c = quote ∨ c = '\\' then "\\" ++ Text.ofChar c
  else if isPrintable c then Text.ofChar c
  else control c

def ofRune (r : Rune) : Text :=
  if r.isStray then "\\x" ++ r.bytes.flatMap (Hex.ofNat .lower 2 ·.toNat)
  else character '"' r.char

def ofText (t : Text) : Text :=
  "\"" ++ t.runes.flatMap ofRune ++ "\""

def ofChar (c : Char) : Text :=
  "'" ++ character '\'' c ++ "'"

end ArithAsm.Quoted
