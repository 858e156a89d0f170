import ArithAsm.Text.Rune
import ArithAsm.Text.Decimal

/-!
Positions in a source text. Lines and columns count from one, columns in runes;
the offset counts bytes from zero.
-/

namespace ArithAsm

structure Location where
  line : Int
  column : Int
  offset : Int
  deriving DecidableEq, Repr, Inhabited

namespace Location

def start : Location := ⟨1, 1, 0⟩

/-- The position after a rune. -/
def advance (loc : Location) (r : Rune) : Location :=
  if r.char = '\n' then ⟨loc.line + 1, 1, loc.offset + r.width⟩
  else ⟨loc.line, loc.column + 1, loc.offset + r.width⟩

/-- The position after a sequence of runes. -/
def past (loc : Location) (rs : List Rune) : Location :=
  rs.foldl advance loc

def text (loc : Location) : Text :=
  Decimal.ofInt loc.line ++ ":" ++ Decimal.ofInt loc.column

end Location

end ArithAsm
