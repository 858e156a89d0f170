import ArithAsm.Text

/-!
The least number of bytes to insert, remove or replace to turn one text into
another.
-/

namespace ArithAsm.EditDistance

/-- Goes along a row of distances. `diagonal` and `left` are the distances
before the current column in the row above and in this row. -/
def rowFrom (a : UInt8) (diagonal left : Nat) : Text → List Nat → List Nat
  | b :: bs, up :: above =>
      let here := if a = b then diagonal else min diagonal (min up left) + 1
      here :: rowFrom a up here bs above
  | _, _ => []

/-- The distances after one more byte `a` of the first text, from those before
it. -/
def nextRow (t : Text) (row : List Nat) (a : UInt8) : List Nat :=
  match row with
  | [] => []
  | first :: above => (first + 1) :: rowFrom a first (first + 1) t above

def distance (s t : Text) : Nat :=
  ((s.foldl (nextRow t) (List.range (t.length + 1))).getLast?).getD 0

end ArithAsm.EditDistance
