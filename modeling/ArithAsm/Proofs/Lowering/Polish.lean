import ArithAsm.Target
import ArithAsm.Proofs.Literals

/-!
What the generated code looks like on every architecture. It is in reverse Polish
order: operands first, then the lines that take them off the stack, compute and push
the result. So the count that a generator keeps is one after an expression, its check
at the end never fails, and every expression has a program.
-/

namespace ArithAsm

namespace Code

open Line

/-- The code of an expression in reverse Polish order. A number is loaded and
pushed; an operation takes its operands off the stack, computes and pushes.
What is counted as a push or a pop is one, and the other lines do neither and
do not return. -/
inductive Polish : Expr → Code → Prop
  | number {loads : List Line} {push : Line} (loc : Location) (n : UInt64)
      (hloads : ∀ l ∈ loads, l.op ∉ effectNames) (hpush : push.op ∈ pushNames) :
      Polish (.number loc n) (loads.map .plain ++ [.push push])
  | binary {l r : Expr} {c d : Code} {right left push : Line} {ops : List Line} (loc : Location)
      (op : Operator) (hl : Polish l c) (hr : Polish r d) (hright : right.op ∈ popNames)
      (hleft : left.op ∈ popNames) (hops : ∀ l ∈ ops, l.op ∉ effectNames)
      (hpush : push.op ∈ pushNames) :
      Polish (.binary loc op l r)
        (c ++ d ++ ([.pop right, .pop left] ++ ops.map .plain ++ [.push push]))

theorem Polish.depth_eq_one {e : Expr} {c : Code} (h : Polish e c) : depth c = 1 := by
  induction h with
  | number loc n _ _ => simp
  | binary loc op _ _ _ _ _ _ ihl ihr => simp [ihl, ihr]

end Code

namespace X86

open Line Code

theorem operation_effectless (op : Operator) : ∀ l ∈ operation op, l.op ∉ effectNames := by
  cases op <;> decide

theorem expression_polish (e : Expr) : Polish e (expression e) := by
  induction e with
  | number loc n =>
      have hpush : "pushq" ∈ pushNames := by decide
      have hmove : "movabsq" ∉ effectNames := by decide
      unfold expression pushNumber
      split
      · have hloads : ∀ l ∈ ([] : List Line), l.op ∉ effectNames :=
          fun l hl => absurd hl List.not_mem_nil
        exact .number loc n hloads hpush
      · have hloads : ∀ l ∈ [Line.instr2 "movabsq" (.immediate n.toInt64) rax],
            l.op ∉ effectNames :=
          fun l hl => List.mem_singleton.mp hl ▸ hmove
        exact .number loc n hloads hpush
  | binary loc op l r ihl ihr =>
      exact .binary loc op ihl ihr (by decide) (by decide) (operation_effectless op) (by decide)

end X86

namespace AArch64

open Line Code

theorem operation_effectless (op : Operator) : ∀ l ∈ operation op, l.op ∉ effectNames := by
  cases op <;> decide

theorem expression_polish (e : Expr) : Polish e (expression e) := by
  induction e with
  | number loc n => exact .number loc n (loadImmediate_effectless "x0" n) (by decide)
  | binary loc op l r ihl ihr =>
      exact .binary loc op ihl ihr (by decide) (by decide) (operation_effectless op) (by decide)

end AArch64

namespace Target

open Code

def epilogue : Target → Code
  | x86_64Linux => X86.epilogue
  | aarch64Linux | aarch64Darwin => AArch64.epilogue

variable (t : Target) (e : Expr)

def expression : Code :=
  match t with
  | x86_64Linux => X86.expression e
  | aarch64Linux | aarch64Darwin => AArch64.expression e

/-- Everything the generator emits for an expression. -/
def emitted : Code :=
  t.expression e ++ t.epilogue

def program : Program :=
  ⟨t.arch, [⟨"main", Code.lines (t.emitted e)⟩]⟩

theorem expression_polish : Polish e (t.expression e) := by
  cases t with
  | x86_64Linux => exact X86.expression_polish e
  | aarch64Linux | aarch64Darwin => exact AArch64.expression_polish e

theorem lower_eq_program : t.lower e = .ok (t.program e) := by
  have hlower : t.lower e = Program.ofCode t.arch (t.expression e) t.epilogue := by
    cases t <;> rfl
  have hdepth := (t.expression_polish e).depth_eq_one
  rw [hlower, Program.ofCode, if_neg (not_not.mpr hdepth)]
  rfl

end Target

end ArithAsm
