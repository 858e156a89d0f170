import ArithAsm.Text

/-!
File paths as texts, with a slash between their parts.
-/

namespace ArithAsm.Path

def slash : UInt8 := 47

def isRooted (path : Text) : Bool :=
  path.head? == some slash

/-- Drops empty and `.` parts and resolves `..` against the part before it. At
the root `..` has no effect; in a relative path it stays when nothing is left
to go back on. `kept` holds the parts so far, last first. -/
def resolve (rooted : Bool) (kept : List Text) : List Text → List Text
  | [] => kept.reverse
  | part :: rest =>
      if part = [] ∨ part = "." then resolve rooted kept rest
      else if part = ".." then
        match kept with
        | last :: before =>
            if last = ".." then resolve rooted (part :: kept) rest
            else resolve rooted before rest
        | [] => resolve rooted (if rooted then [] else [part]) rest
      else resolve rooted (part :: kept) rest

/-- The shortest path that names the same place without following links. -/
def clean (path : Text) : Text :=
  let parts := Text.joinWith [slash] (resolve (isRooted path) [] (path.splitOn slash))
  if isRooted path then slash :: parts
  else if parts = [] then "."
  else parts

/-- A name in a directory. An empty directory means no directory at all. -/
def join (directory name : Text) : Text :=
  if directory ≠ [] then clean (directory ++ [slash] ++ name)
  else if name ≠ [] then clean name
  else []

end ArithAsm.Path
