import ArithAsm.Proofs.Evaluation
import ArithAsm.Proofs.Lowering.X86

/-!
Code for AArch64 computes the total value. No division traps there, so the code
of an expression always runs to its end and pushes a word, also where
evaluation fails; where evaluation succeeds it is the word that evaluation and
the x86-64 program give.
-/

namespace ArithAsm.AArch64

open Machine

theorem step_push (m : Machine) :
    m.step? .aarch64 (push x0).line = some (.ok (m.push (m.get "x0"))) := rfl

theorem step_pop {reg : String} (hreg : reg ≠ "") (hsp : reg ≠ "sp") {m : Machine}
    {value : Int64} {rest : List Int64} (h : m.stack = value :: rest) :
    m.step? .aarch64 (pop (.register reg)).line =
      some (.ok (({ m with stack := rest } : Machine).set reg value)) := by
  have hrun : (load (pop (.register reg)).line).run m =
      .ok () (({ m with stack := rest } : Machine).set reg value) := by
    simp [pop, Emitted.pop, Line.instr2, load, Line.expectArity, registerName_register hreg hsp,
      Action.run_popTop_of_cons h]
  exact congrArg some (Action.outcome_eq_ok_iff.mpr hrun)

def stackUse : StackUse where
  arch := .aarch64
  left := "x0"
  right := "x1"
  scratch := ["x0", "x1"]
  push := (push x0).line
  popLeft := (pop x0).line
  popRight := (pop x1).line
  right_ne_left := by decide
  left_mem := by decide
  right_mem := by decide
  push_steps m hrunning := .single (by decide) (step_push m) hrunning
  popLeft_steps m _ _ hrunning hstack :=
    .single (by decide) (step_pop (by decide) (by decide) hstack) hrunning
  popRight_steps m _ _ hrunning hstack :=
    .single (by decide) (step_pop (by decide) (by decide) hstack) hrunning

theorem loadImmediate_computes (value : UInt64) {m : Machine} (hrunning : m.returned = false) :
    stackUse.Computes (loadImmediate "x0" value) m value.toInt64 := by
  have hload : Executes .aarch64 (loadImmediate "x0" value) m (m.set "x0" value.toInt64) :=
    loadImmediate_executes (by decide) (by decide) value m
  have hret : ∀ l ∈ loadImmediate "x0" value, l.op ≠ "ret" :=
    fun l hl hop => loadImmediate_effectless "x0" value l hl (hop ▸ by decide)
  exact ⟨_, hload.steps hret hrunning, get_set_same _ _ _, rfl,
    (Keeps.refl _ m).set stackUse.left_mem _⟩

theorem step_cset (op : Operator) (m : Machine) :
    m.step? .aarch64 (.instr2 "cset" x0 (.register (condition op))) =
      some (.ok (m.set "x0" (m.test (.ofOperator op)))) := by
  cases op <;> rfl

/-- Every operation computes its total result. -/
theorem operation_computes (op : Operator) {m : Machine} (hrunning : m.returned = false) :
    stackUse.Computes (operation op) m (op.totalResult (m.get "x0") (m.get "x1")) := by
  cases op with
  | add | sub | mul | div =>
      refine ⟨_, .single (by decide) rfl hrunning, get_set_same _ _ _, rfl, ?_⟩
      exact (Keeps.refl _ m).set stackUse.left_mem _
  | eq | ne | lt | le | gt | ge =>
      let m₁ := m.compare (m.get "x0") (m.get "x1")
      have hkept : Keeps stackUse.scratch m m₁ := Keeps.refl _ m
      refine ⟨_, .cons (by decide) rfl hrunning
        (.single (by decide) (step_cset _ m₁) hrunning), ?_, rfl,
        hkept.set stackUse.left_mem _⟩
      exact (get_set_same _ _ _).trans (test_compare rfl m _ _)

/-- The code of an expression pushes its total value. -/
theorem expression_pushes (e : Expr) {m : Machine} (hrunning : m.returned = false) :
    stackUse.Pushes (Code.lines (expression e)) m (Expr.totalValue e) := by
  induction e generalizing m with
  | number loc n =>
      simp only [expression, Code.lines_append, Code.lines_map_plain]
      exact (loadImmediate_computes n hrunning).push hrunning
  | binary loc op l r ihl ihr =>
      simp only [expression, Code.lines_append, Code.lines_map_plain, Expr.totalValue]
      refine (ihl hrunning).binary (fun m₁ hrunning₁ => ihr hrunning₁) ?_ hrunning
      intro m₁ hrunning₁ hleft hright
      rw [← hleft, ← hright]
      exact operation_computes op hrunning₁

theorem run_program {t : Target} (ht : t.arch = .aarch64) (e : Expr) :
    (t.program e).run = .ok (Expr.totalValue e) := by
  have hrun : Program.run ⟨.aarch64, [⟨"main", Code.lines (expression e ++ epilogue)⟩]⟩ =
      .ok (Expr.totalValue e) := by
    rw [Code.lines_append]
    exact (expression_pushes e rfl).run (by decide) rfl (show "ret" ≠ "" by decide) (fun _ => rfl)
  cases t with
  | x86_64Linux => cases ht
  | aarch64Linux | aarch64Darwin => exact hrun

/-- Every expression has a program for both targets, and a run of it gives the
total value. -/
theorem lower_run {t : Target} (ht : t.arch = .aarch64) (e : Expr) :
    ∃ p, t.lower e = .ok p ∧ p.run = .ok (Expr.totalValue e) :=
  ⟨t.program e, t.lower_eq_program e, run_program ht e⟩

/-- The program for an AArch64 target always succeeds, with the total value.
So it gives the value that evaluation has, if there is one, and the word that
the x86-64 program returns, if it returns. The total value departs from
evaluation only in the two divisions that trap. -/
theorem run_lower_eq_totalValue {t : Target} (ht : t.arch = .aarch64) (e : Expr) :
    (∃ p, t.lower e = .ok p ∧ p.run = .ok (Expr.totalValue e) ∧
      (∀ v, Expr.eval e = .ok v → p.run = .ok v) ∧
      ∀ q v, Target.x86_64Linux.lower e = .ok q → q.run = .ok v → p.run = .ok v) ∧
    ∀ (op : Operator) (a b : Int64), op.totalResult a b =
      match op.result a b with
      | .ok v => v
      | .error .byZero => 0
      | .error .overflow => Int64.minValue := by
  obtain ⟨p, hlower, hrun⟩ := lower_run ht e
  have heval (v : Int64) (h : Expr.eval e = .ok v) : p.run = .ok v := by
    rw [hrun, Expr.totalValue_of_eval h]
  refine ⟨⟨p, hlower, hrun, heval, ?_⟩, Operator.totalResult_eq⟩
  intro q v hq hrunq
  exact heval v (X86.eval_of_run hq hrunq)

/-- The sum of the two divisions that trap, minus one. -/
def trappingSum : Expr :=
  let word (n : UInt64) : Expr := .number ⟨1, 1, 0⟩ n
  let op (op : Operator) (l r : Expr) : Expr := .binary ⟨1, 1, 0⟩ op l r
  op .add (op .div (word 0x8000000000000000) (op .sub (word 0) (word 1)))
    (op .sub (op .div (word 7) (word 0)) (word 1))

theorem run_lower_trappingSum :
    Target.aarch64Darwin.arch = .aarch64 ∧ (∃ err, Expr.eval trappingSum = .error err) ∧
      ∃ p, Target.aarch64Darwin.lower trappingSum = .ok p ∧ p.run = .ok Int64.maxValue := by
  obtain ⟨⟨p, hlower, hrun, _⟩, _⟩ :=
    run_lower_eq_totalValue (t := .aarch64Darwin) rfl trappingSum
  exact ⟨rfl, ⟨_, rfl⟩, p, hlower, hrun⟩

end ArithAsm.AArch64
