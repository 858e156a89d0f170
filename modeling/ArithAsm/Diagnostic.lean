import ArithAsm.Compilation

/-!
Errors as they are shown to a person. An error with a location comes with its
source line and a caret under the offending column.
-/

namespace ArithAsm

structure Diagnostic where
  message : Text
  loc : Option Location
  deriving DecidableEq, Repr

namespace Diagnostic

def plain (message : Text) : Diagnostic :=
  ⟨message, none⟩

def ofLexError (e : LexError) : Diagnostic :=
  ⟨e.message, some e.loc⟩

def ofParseError (e : ParseError) : Diagnostic :=
  ⟨e.message, some e.loc⟩

/-- Puts a context in front of the message. An error with a location speaks for
itself and keeps its own message. -/
def within (context : Text) (d : Diagnostic) : Diagnostic :=
  match d.loc with
  | some _ => d
  | none => plain (context ++ ": " ++ d.message)

def ofCompileError (e : CompileError) : Diagnostic :=
  match e with
  | .lexing error => ofLexError error
  | .parsing error => ofParseError error
  | e => plain e.message

/-- The marks put around the label and the caret. -/
structure Palette where
  labelStart : Text := []
  labelEnd : Text := []
  caretStart : Text := []
  caretEnd : Text := []

def Palette.uncolored : Palette := {}

/-- A bold red label and a bold green caret. -/
def Palette.colored : Palette :=
  { labelStart := "\x1b[31;1m", labelEnd := "\x1b[0m"
    caretStart := "\x1b[32;1m", caretEnd := "\x1b[0;22m" }

def stripReturn (line : Text) : Text :=
  if line.getLast? = some 13 then line.dropLast else line

/-- The line with a given number, counted from one, without its terminator. -/
def sourceLine? (source : Text) (n : Int) : Option Text :=
  if n < 1 then none
  else ((source.splitOn Text.newline)[n.toNat - 1]?).map stripReturn

/-- Moves the caret under a column. Tabs of the line are kept, so the caret is
in place whatever the width of a tab. -/
def caretPadding (line : Text) (column : Int) : Text :=
  let width := (column - 1).toNat
  let kept := (line.runes.take width).map fun r => if r.char = '\t' then 9 else 32
  kept ++ Text.spaces (width - kept.length)

def excerpt (palette : Palette) (source : Text) (loc : Location) : Text :=
  match sourceLine? source loc.line with
  | none => []
  | some line =>
      "  " ++ line ++ "\n  " ++ caretPadding line loc.column ++
        palette.caretStart ++ "^" ++ palette.caretEnd ++ "\n"

def report (palette : Palette) (source : Text) (d : Diagnostic) : Text :=
  palette.labelStart ++ "error:" ++ palette.labelEnd ++ " " ++ d.message ++ "\n" ++
    match d.loc with
    | none => []
    | some loc => excerpt palette source loc

end Diagnostic

end ArithAsm
