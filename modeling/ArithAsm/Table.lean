import ArithAsm.Text.Width
import ArithAsm.Text.Decimal

/-!
Tables drawn with lines. Titles are centered, numbers stand to the right and
all else to the left. A cell of more than thirty columns is broken at its
spaces into lines of even length; a word is never broken.
-/

namespace ArithAsm.Table

def cellLimit : Nat := 30

def padding (width : Nat) (t : Text) : Nat :=
  width - Width.ofText t

def alignLeft (width : Nat) (t : Text) : Text :=
  t ++ Text.spaces (padding width t)

def alignRight (width : Nat) (t : Text) : Text :=
  Text.spaces (padding width t) ++ t

/-- Of an odd number of spaces the last one goes to the right. -/
def center (width : Nat) (t : Text) : Text :=
  let gap := padding width t
  Text.spaces (gap / 2) ++ t ++ Text.spaces (gap - gap / 2)

/-- Whether digits are grouped in threes by commas after a first group of one
to three. -/
def isGrouped (groups : List Text) : Bool :=
  match groups with
  | [] => false
  | first :: rest =>
      first.all Decimal.isDigit && 1 ≤ first.length && first.length ≤ 3 &&
        rest.all fun g => g.all Decimal.isDigit && g.length == 3

/-- An optional minus sign, digits with or without grouping, and an optional
fraction. -/
def isNumber (t : Text) : Bool :=
  let t := if t.head? = some 45 then t.tail else t
  match Text.splitOn 46 t with
  | [whole] => isWhole whole
  | [whole, places] => isWhole whole && !places.isEmpty && places.all Decimal.isDigit
  | _ => false
where
  isWhole (t : Text) : Bool :=
    (!t.isEmpty && t.all Decimal.isDigit) || isGrouped (Text.splitOn 44 t)

def trim (t : Text) : Text :=
  let isSpace (b : UInt8) : Bool := b == 32 || (9 ≤ b && b ≤ 13)
  ((t.dropWhile isSpace).reverse.dropWhile isSpace).reverse

def align (width : Nat) (t : Text) : Text :=
  if isNumber (trim t) then alignRight width t else alignLeft width t

/-- The columns of words set on one line with a space between neighbours. -/
def lineWidth (words : List Text) : Nat :=
  words.foldl (fun width w => width + Width.ofText w) (words.length - 1)

/-- A way to set words on lines, and what it costs. -/
structure Layout where
  cost : Nat
  lines : List (List Text)

/-- A line on top of others costs the square of the columns it leaves free, and
more if it is too long. -/
def Layout.add (limit : Nat) (line : List Text) (below : Layout) : Layout :=
  let free : Int := limit - lineWidth line
  let excess := if lineWidth line > limit then 100000 else 0
  ⟨(free * free).toNat + excess + below.cost, line :: below.lines⟩

/-- Of equally cheap layouts the first one is taken. -/
def Layout.best (first : Layout) (others : List Layout) : Layout :=
  others.foldl (fun best l => if l.cost < best.cost then l else best) first

/-- The cheapest layouts of some words and of every list of words at their end,
longest first. Words that fit one line cost nothing. -/
def layouts (limit : Nat) : List Text → List Layout
  | [] => []
  | word :: rest =>
      let below := layouts limit rest
      let whole : Layout := ⟨0, [word :: rest]⟩
      let layout :=
        if lineWidth (word :: rest) ≤ limit then whole
        else
          let choices := below.zipIdx.map fun (l, n) => l.add limit (word :: rest.take n)
          match choices with
          | [] => whole
          | first :: others => Layout.best first others
      layout :: below

def wrap (limit : Nat) (t : Text) : List Text :=
  let words := Text.splitOn 32 t
  let limit := (words.map Width.ofText).foldl max limit
  match layouts limit words with
  | [] => []
  | l :: _ => l.lines.map (Text.joinWith " ")

/-- The lines of a cell and the columns it needs. -/
structure Cell where
  lines : List Text
  width : Nat

/-- Line breaks inside a cell count as spaces, but no line gets longer than the
longest of those they divide. A cell that is broken keeps the columns it was
broken to, even if its lines turn out shorter. -/
def Cell.ofText (t : Text) : Cell :=
  let pieces := Text.splitOn Text.newline t
  let limit := min cellLimit ((pieces.map Width.ofText).foldl max 0)
  let lines := wrap limit (Text.joinWith " " pieces)
  ⟨lines, (lines.map Width.ofText).foldl max limit⟩

def rule (widths : List Nat) : Text :=
  let segment (w : Nat) : Text := (List.replicate (w + 2) 45 : Text) ++ "+"
  "+" ++ (widths.flatMap segment : Text) ++ "\n"

def rowLine (cells : List Text) : Text :=
  let segment (c : Text) : Text := " " ++ c ++ " |"
  "|" ++ (cells.flatMap segment : Text) ++ "\n"

/-- The lines of a row, with empty cells below those that have fewer lines. -/
def row (place : Nat → Text → Text) (widths : List Nat) (cells : List Cell) : Text :=
  let height := (cells.map (·.lines.length)).foldl max 0
  (List.range height).flatMap fun n =>
    rowLine (List.zipWith (fun w c => place w ((c.lines[n]?).getD "  ")) widths cells)

/-- A table of a title row and one row of cells. -/
def render (titles cells : List Text) : Text :=
  let titles := titles.map Cell.ofText
  let cells := cells.map Cell.ofText
  let widths := List.zipWith (fun a b => max a.width b.width) titles cells
  rule widths ++ row center widths titles ++ rule widths ++ row align widths cells ++ rule widths

end ArithAsm.Table
