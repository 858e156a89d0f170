import ArithAsm.Text.Rune
import ArithAsm.Text.Printable
import ArithAsm.Text.Hex

/-!
Text made safe to stand between single quotes in a message. Printable
characters stay as they are, apart from the quote and the backslash; all others
become escapes.
-/

namespace ArithAsm.Escaped

def ofRune (r : Rune) : Text :=
  match r.char with
  | '\n' => "\\n"
  | '\t' => "\\t"
  | '\'' => "\\'"
  | '\\' => "\\\\"
  | c =>
      if isPrintable c then Text.ofChar c
      else if c.toNat ≤ 0xFF then "\\x" ++ Hex.ofNat .upper 2 c.toNat
      else "\\u" ++ Hex.ofNat .upper 4 c.toNat

def ofText (t : Text) : Text :=
  t.runes.flatMap ofRune

end ArithAsm.Escaped
