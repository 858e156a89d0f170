import ArithAsm.Text.Quoted

/-!
Log lines made of `key=value` pairs. Time, level and message come first, then
the fields sorted by key.
-/

namespace ArithAsm

structure LogLine where
  time : Text
  level : String
  message : Text
  fields : List (String × Text)

namespace LogLine

/-- Bytes that a value may hold without being quoted. -/
def isBare (b : UInt8) : Bool :=
  (48 ≤ b && b ≤ 57) || (65 ≤ b && b ≤ 90) || (97 ≤ b && b ≤ 122) ||
    b == 43 || b == 45 || b == 46 || b == 47 || b == 64 || b == 94 || b == 95

def valueText (value : Text) : Text :=
  if value.all isBare then value else Quoted.ofText value

def pair (key : String) (value : Text) : Text :=
  key ++ "=" ++ valueText value

def render (l : LogLine) : Text :=
  let fields := l.fields.mergeSort fun a b => a.1 ≤ b.1
  let pairs := [("time", l.time), ("level", (l.level : Text)), ("msg", l.message)] ++ fields
  Text.joinWith " " (pairs.map fun field => pair field.1 field.2) ++ "\n"

end LogLine

end ArithAsm
