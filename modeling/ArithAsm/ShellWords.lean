import ArithAsm.Text

/-!
Splitting a command line into words. Spaces, tabs and newlines separate words.
Single quotes keep everything as it is. A backslash takes the next byte as it
is; between double quotes it does so only before a dollar sign, a backquote, a
double quote, a backslash or a newline. An escaped newline vanishes.
-/

namespace ArithAsm.ShellWords

inductive Error where
  | singleQuoted
  | doubleQuoted
  | escape
  deriving DecidableEq, Repr

def Error.message : Error → Text
  | singleQuoted => "Unterminated single-quoted string"
  | doubleQuoted => "Unterminated double-quoted string"
  | escape => "Unterminated backslash-escape"

def isSeparator (b : UInt8) : Bool :=
  b == 32 || b == 9 || b == 10

def isEscapable (b : UInt8) : Bool :=
  b == 36 || b == 96 || b == 34 || b == 92 || b == 10

/-- Where the reader stands. -/
inductive Mode where
  | between
  | bare
  | single
  | double

def appendEscaped (word : Text) (b : UInt8) : Text :=
  if b = 10 then word else word ++ [b]

/-- Reads words from left to right. `word` is the part of the current word that
has been read. -/
def read : Mode → Text → Text → Except Error (List Text)
  | .between, _, [] => .ok []
  | .bare, word, [] => .ok [word]
  | .single, _, [] => .error .singleQuoted
  | .double, _, [] => .error .doubleQuoted
  | .single, word, b :: rest =>
      if b = 39 then read .bare word rest else read .single (word ++ [b]) rest
  | .double, word, 92 :: rest =>
      match rest with
      | [] => .error .doubleQuoted
      | b :: rest =>
          if isEscapable b then read .double (appendEscaped word b) rest
          else read .double (word ++ [92, b]) rest
  | .double, word, b :: rest =>
      if b = 34 then read .bare word rest else read .double (word ++ [b]) rest
  | .between, _, 92 :: rest =>
      match rest with
      | [] => .error .escape
      | b :: rest => if b = 10 then read .between [] rest else read .bare [b] rest
  | .bare, word, 92 :: rest =>
      match rest with
      | [] => .error .escape
      | b :: rest => read .bare (appendEscaped word b) rest
  | .between, _, b :: rest =>
      if isSeparator b then read .between [] rest
      else if b = 39 then read .single [] rest
      else if b = 34 then read .double [] rest
      else read .bare [b] rest
  | .bare, word, b :: rest =>
      if isSeparator b then (read .between [] rest).map (word :: ·)
      else if b = 39 then read .single word rest
      else if b = 34 then read .double word rest
      else read .bare (word ++ [b]) rest

def split (t : Text) : Except Error (List Text) :=
  read .between [] t

end ArithAsm.ShellWords
