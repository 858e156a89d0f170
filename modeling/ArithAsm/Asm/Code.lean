import ArithAsm.Asm

/-!
Code on its way to becoming a program. A generator emits lines one after the
other and counts the words they leave on the stack. Once the code of a whole
expression is there, the count has to be one: the value of the expression.
-/

namespace ArithAsm

/-- An emitted line, with what it adds to the count of words on the stack. -/
structure Emitted where
  line : Line
  change : Int
  deriving DecidableEq, Repr

namespace Emitted

def plain (l : Line) : Emitted := ⟨l, 0⟩
def push (l : Line) : Emitted := ⟨l, 1⟩
def pop (l : Line) : Emitted := ⟨l, -1⟩

@[simp] theorem change_plain (l : Line) : (plain l).change = 0 := rfl

@[simp] theorem change_push (l : Line) : (push l).change = 1 := rfl

@[simp] theorem change_pop (l : Line) : (pop l).change = -1 := rfl

end Emitted

abbrev Code := List Emitted

namespace Code

def lines (c : Code) : List Line :=
  c.map (·.line)

/-- The count of words on the stack after the code, when it starts at zero. -/
def depth (c : Code) : Int :=
  c.foldl (fun count x => count + x.change) 0

@[simp] theorem lines_append (c d : Code) : lines (c ++ d) = lines c ++ lines d :=
  List.map_append

@[simp] theorem lines_map_plain (ls : List Line) : lines (ls.map .plain) = ls := by
  simp [lines, Emitted.plain, Function.comp_def]

theorem foldl_change (c : Code) (count : Int) :
    c.foldl (fun count x => count + x.change) count = count + depth c := by
  unfold depth
  induction c generalizing count with
  | nil => simp
  | cons x c ih =>
      simp only [List.foldl_cons]
      rw [ih, ih (0 + x.change)]
      omega

@[simp] theorem depth_nil : depth [] = 0 := rfl

@[simp] theorem depth_cons (x : Emitted) (c : Code) : depth (x :: c) = x.change + depth c := by
  rw [depth, List.foldl_cons, foldl_change]
  omega

@[simp] theorem depth_append (c d : Code) : depth (c ++ d) = depth c + depth d := by
  rw [depth, List.foldl_append, foldl_change]
  rfl

@[simp] theorem depth_map_plain (ls : List Line) : depth (ls.map .plain) = 0 := by
  induction ls with
  | nil => rfl
  | cons l ls ih => simp [Emitted.plain, ih]

end Code

/-- A generator that lost track of the stack. -/
inductive LoweringFault where
  | unbalanced (depth : Int)
  deriving DecidableEq, Repr

def LoweringFault.message : LoweringFault → Text
  | unbalanced depth =>
      "evaluation stack holds " ++ Decimal.ofInt depth ++ " values after the expression, want 1"

/-- The program with a single function, which runs the code of an expression
and then what takes its value off the stack and returns. -/
def Program.ofCode (arch : Arch) (code epilogue : Code) : Except LoweringFault Program :=
  if code.depth ≠ 1 then .error (.unbalanced code.depth)
  else .ok ⟨arch, [⟨"main", Code.lines (code ++ epilogue)⟩]⟩

end ArithAsm
