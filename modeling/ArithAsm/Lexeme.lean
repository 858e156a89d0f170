import ArithAsm.Location
import ArithAsm.Text.Escaped
import ArithAsm.Text.Quoted

/-!
Lexemes: a kind, the source text it was read from, its numeric value when it is
a number, and where it starts.
-/

namespace ArithAsm

inductive LexemeKind where
  | eof
  | number
  | plus
  | minus
  | star
  | slash
  | leftParen
  | rightParen
  | eq
  | ne
  | lt
  | le
  | gt
  | ge
  | unknown
  deriving DecidableEq, Repr

namespace LexemeKind

def name : LexemeKind → String
  | eof => "EOF"
  | number => "NUMBER"
  | plus => "PLUS"
  | minus => "MINUS"
  | star => "STAR"
  | slash => "SLASH"
  | leftParen => "LPAREN"
  | rightParen => "RPAREN"
  | eq => "EQ"
  | ne => "NE"
  | lt => "LT"
  | le => "LE"
  | gt => "GT"
  | ge => "GE"
  | unknown => "UNKNOWN"

/-- Kinds are numbered from zero in the order of their declaration; a number
past the last known kind stands for an unknown one. -/
def ofCode (code : Int) : LexemeKind :=
  match code with
  | 0 => eof
  | 1 => number
  | 2 => plus
  | 3 => minus
  | 4 => star
  | 5 => slash
  | 6 => leftParen
  | 7 => rightParen
  | 8 => eq
  | 9 => ne
  | 10 => lt
  | 11 => le
  | 12 => gt
  | 13 => ge
  | _ => unknown

end LexemeKind

structure Lexeme where
  kind : LexemeKind
  text : Text
  value : UInt64
  loc : Location
  deriving DecidableEq, Repr

namespace Lexeme

def eofAt (loc : Location) : Lexeme :=
  ⟨.eof, [], 0, loc⟩

/-- The kind, with the source text when there is any, in angle brackets. -/
def describe (l : Lexeme) : Text :=
  if l.text = [] then "<" ++ l.kind.name ++ ">"
  else "<" ++ Text.ofString l.kind.name ++ " " ++ Quoted.ofText l.text ++ ">"

/-- The location right after the lexeme, which lies on a single line. -/
def endLoc (l : Lexeme) : Location :=
  ⟨l.loc.line, l.loc.column + l.text.runeCount, l.loc.offset + l.text.length⟩

end Lexeme

inductive LexCause where
  | invalidToken
  | numberOverflow
  deriving DecidableEq, Repr

def LexCause.message : LexCause → Text
  | invalidToken => "invalid token"
  | numberOverflow => "number literal overflows 64 bits"

structure LexError where
  cause : LexCause
  loc : Location
  text : Text
  deriving DecidableEq, Repr

def LexError.message (e : LexError) : Text :=
  e.loc.text ++ ": " ++ e.cause.message ++ " '" ++ Escaped.ofText e.text ++ "'"

end ArithAsm
