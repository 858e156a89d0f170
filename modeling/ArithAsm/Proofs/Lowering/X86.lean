import ArithAsm.Proofs.Actions
import ArithAsm.Proofs.Evaluation
import ArithAsm.Proofs.Lowering.Polish
import ArithAsm.Proofs.Lowering.Stack

/-!
Code for x86-64 computes what evaluation does. Wherever the code of an
expression stands, and whatever is in the registers and on the stack, it pushes
the value of the expression; if the expression has none, it stops at the
division that has no result, for the same reason.
-/

namespace ArithAsm.X86

open Machine

theorem step_pushq_immediate {value : Int64} (h : fitsInt32 value = true) (m : Machine) :
    m.step? .x86_64 (pushq (.immediate value)).line = some (.ok (m.push value)) := by
  have hrun : (push (pushq (.immediate value)).line).run m = .ok () (m.push value) := by
    simp [pushq, Emitted.push, Line.instr1, push, Line.expectArity, read, Operand.immediate, h]
  exact congrArg some (Action.outcome_eq_ok_iff.mpr hrun)

theorem step_pushq_rax (m : Machine) :
    m.step? .x86_64 (pushq rax).line = some (.ok (m.push (m.get "rax"))) := rfl

theorem step_popq {name : String} (hname : name ≠ "") (hal : name ≠ "al") {m : Machine}
    {value : Int64} {rest : List Int64} (h : m.stack = value :: rest) :
    m.step? .x86_64 (popq (.register name)).line =
      some (.ok (({ m with stack := rest } : Machine).set name value)) := by
  have hrun : (pop (popq (.register name)).line).run m =
      .ok () (({ m with stack := rest } : Machine).set name value) := by
    simp [popq, Emitted.pop, Line.instr1, pop, Line.expectArity, Action.run_popTop_of_cons h,
      write, Operand.register, Operand.isPlainRegister, hname, hal]
  exact congrArg some (Action.outcome_eq_ok_iff.mpr hrun)

theorem step_movabsq (value : Int64) (m : Machine) :
    m.step? .x86_64 (.instr2 "movabsq" (.immediate value) rax) =
      some (.ok (m.set "rax" value)) := rfl

def stackUse : StackUse where
  arch := .x86_64
  left := "rax"
  right := "rdi"
  scratch := ["rax", "rdi", "rdx"]
  push := (pushq rax).line
  popLeft := (popq rax).line
  popRight := (popq rdi).line
  right_ne_left := by decide
  left_mem := by decide
  right_mem := by decide
  push_steps m hrunning := .single (by decide) (step_pushq_rax m) hrunning
  popLeft_steps m _ _ hrunning hstack :=
    .single (by decide) (step_popq (by decide) (by decide) hstack) hrunning
  popRight_steps m _ _ hrunning hstack :=
    .single (by decide) (step_popq (by decide) (by decide) hstack) hrunning

theorem pushNumber_pushes (value : Int64) {m : Machine} (hrunning : m.returned = false) :
    stackUse.Pushes (Code.lines (pushNumber value)) m value := by
  unfold pushNumber
  split
  case isTrue hfits =>
    have hstep := step_pushq_immediate hfits m
    exact ⟨m.push value, .single (show "pushq" ≠ "" by decide) hstep hrunning, rfl,
      Keeps.refl _ m⟩
  case isFalse =>
    have hmove : stackUse.Computes [.instr2 "movabsq" (.immediate value) rax] m value :=
      ⟨m.set "rax" value, .single (show "movabsq" ≠ "" by decide) (step_movabsq value m) hrunning,
        get_set_same _ _ _, rfl, (Keeps.refl _ m).set stackUse.left_mem value⟩
    exact hmove.push hrunning

/-- Writing a byte under a mask and then reading it through the same mask. -/
theorem masked_read_write (word byte mask : Int64) :
    ((word &&& ~~~mask) ||| (byte &&& mask)) &&& mask = byte &&& mask := by
  apply Int64.toBitVec_inj.mp
  ext i hi
  simp only [Int64.toBitVec_and, Int64.toBitVec_or, Int64.toBitVec_not, BitVec.getElem_and,
    BitVec.getElem_or, BitVec.getElem_not]
  cases word.toBitVec[i] <;> cases byte.toBitVec[i] <;> cases mask.toBitVec[i] <;> rfl

theorem test_masked (m : Machine) (c : Condition) : m.test c &&& 0xff = m.test c := by
  unfold Machine.test
  split <;> rfl

theorem step_setter (op : Operator) (m : Machine) :
    m.step? .x86_64 (.instr1 (setter op) al) =
      some (.ok (m.set "rax"
        ((m.get "rax" &&& ~~~0xff) ||| (m.test (.ofOperator op) &&& 0xff)))) := by
  cases op <;> rfl

/-- The truth value goes through the low byte of `rax`. What the other bytes
hold does not matter, since they are cleared afterwards. -/
theorem compare_computes {op : Operator} (hop : op.isComparison = true) {m : Machine}
    (hrunning : m.returned = false) :
    stackUse.Computes (compare op) m (op.totalResult (m.get "rax") (m.get "rdi")) := by
  let m₁ := m.compare (m.get "rax") (m.get "rdi")
  let m₂ := m₁.set "rax"
    ((m₁.get "rax" &&& ~~~0xff) ||| (m₁.test (.ofOperator op) &&& 0xff))
  let m₃ := m₂.set "rax" (m₂.get "rax" &&& 0xff)
  have hcmp : m.step? .x86_64 (.instr2 "cmpq" rdi rax) = some (.ok m₁) := rfl
  have hset : m₁.step? .x86_64 (.instr1 (setter op) al) = some (.ok m₂) := step_setter op m₁
  have hextend : m₂.step? .x86_64 (.instr2 "movzbq" al rax) = some (.ok m₃) := rfl
  have hsetter : setter op ≠ "" := by cases op <;> decide
  have hkept : Keeps stackUse.scratch m m₁ := Keeps.refl _ m
  refine ⟨m₃, .cons (by decide) hcmp hrunning (.cons hsetter hset hrunning
    (.single (by decide) hextend hrunning)), ?_, rfl, ?_⟩
  · calc
      m₃.get "rax" = m₂.get "rax" &&& 0xff := get_set_same _ _ _
      _ = m₁.test (.ofOperator op) &&& 0xff := by
        rw [get_set_same, masked_read_write]
      _ = m₁.test (.ofOperator op) := test_masked _ _
      _ = op.totalResult (m.get "rax") (m.get "rdi") := test_compare hop m _ _
  · exact (hkept.set stackUse.left_mem _).set stackUse.left_mem _

/-- A division whose dividend is extended does what the operator does. -/
theorem run_divide {m : Machine} (h : m.get "rdx" = signWord (m.get "rax")) :
    (divide (.instr1 "idivq" rdi)).run m =
      match Operator.div.result (m.get "rax") (m.get "rdi") with
      | .ok v => .ok () ((m.set "rax" v).set "rdx" (m.get "rax" % m.get "rdi"))
      | .error cause => .error (.ofDivision cause) m := by
  have harity : ((Line.instr1 "idivq" rdi).expectArity 1).run m = .ok () m := rfl
  have hread : (read (Line.instr1 "idivq" rdi).first).run m = .ok (m.get "rdi") m := rfl
  have hextended : ¬ m.get "rdx" ≠ signWord (m.get "rax") := not_not.mpr h
  rw [divide, EStateM.run_bind, harity]
  dsimp only
  rw [EStateM.run_bind, hread]
  dsimp only
  rw [EStateM.run_bind, EStateM.run_get]
  dsimp only
  rw [if_neg hextended]
  unfold Operator.result Operator.trap?
  by_cases hzero : m.get "rdi" = 0
  · rw [if_pos hzero, if_pos hzero]
    rfl
  by_cases hover : m.get "rax" = Int64.minValue ∧ m.get "rdi" = -1
  · rw [if_neg hzero, if_neg hzero, if_pos hover, if_pos hover]
    rfl
  · rw [if_neg hzero, if_neg hzero, if_neg hover, if_neg hover]
    rfl

theorem step_idivq {m : Machine} (h : m.get "rdx" = signWord (m.get "rax")) :
    m.step? .x86_64 (.instr1 "idivq" rdi) =
      some (match Operator.div.result (m.get "rax") (m.get "rdi") with
        | .ok v => .ok ((m.set "rax" v).set "rdx" (m.get "rax" % m.get "rdi"))
        | .error cause => .error ⟨m, .ofDivision cause⟩) := by
  have hexec : m.step? .x86_64 (.instr1 "idivq" rdi) =
      some ((divide (.instr1 "idivq" rdi)).outcome m) := rfl
  rw [hexec, Action.outcome, run_divide h]
  cases Operator.div.result (m.get "rax") (m.get "rdi") <;> rfl

/-- The dividend as `cqto` extends it. -/
def extended (m : Machine) : Machine :=
  m.set "rdx" (signWord (m.get "rax"))

theorem step_idivq_extended (m : Machine) :
    (extended m).step? .x86_64 (.instr1 "idivq" rdi) =
      some (match Operator.div.result (m.get "rax") (m.get "rdi") with
        | .ok v => .ok (((extended m).set "rax" v).set "rdx" (m.get "rax" % m.get "rdi"))
        | .error cause => .error ⟨extended m, .ofDivision cause⟩) := by
  have hrax : (extended m).get "rax" = m.get "rax" := get_set_ne _ _ (by decide)
  have hrdi : (extended m).get "rdi" = m.get "rdi" := get_set_ne _ _ (by decide)
  have hrdx : (extended m).get "rdx" = signWord ((extended m).get "rax") := by
    rw [hrax]
    exact get_set_same _ _ _
  rw [step_idivq hrdx, hrax, hrdi]

/-- An operation with a result computes it. -/
theorem operation_computes {op : Operator} {m : Machine} {v : Int64}
    (hrunning : m.returned = false)
    (h : op.result (m.get "rax") (m.get "rdi") = .ok v) :
    stackUse.Computes (operation op) m v := by
  have hresult := (Operator.result_eq_ok_iff.mp h).2
  have hrdx : "rdx" ∈ stackUse.scratch := by decide
  cases op with
  | add | sub | mul =>
      refine ⟨m.set "rax" v, .single (by decide) ?_ hrunning, get_set_same _ _ _, rfl, ?_⟩
      · rw [← hresult]
        rfl
      · exact (Keeps.refl _ m).set stackUse.left_mem v
  | div =>
      let m₁ := (extended m).set "rax" v
      let m₂ := m₁.set "rdx" (m.get "rax" % m.get "rdi")
      have hextend : m.step? .x86_64 (.instr0 "cqto") = some (.ok (extended m)) := rfl
      have hdivide : (extended m).step? .x86_64 (.instr1 "idivq" rdi) = some (.ok m₂) := by
        rw [step_idivq_extended, h]
      have hkept : Keeps stackUse.scratch m (extended m) := (Keeps.refl _ m).set hrdx _
      refine ⟨m₂, .cons (by decide) hextend hrunning
        (.single (by decide) hdivide hrunning), ?_, rfl, ?_⟩
      · calc
          m₂.get "rax" = m₁.get "rax" := get_set_ne _ _ (by decide)
          _ = v := get_set_same _ _ _
      · exact (hkept.set stackUse.left_mem _).set hrdx _
  | eq | ne | lt | le | gt | ge =>
      rw [← hresult]
      exact compare_computes rfl hrunning

/-- An operation without a result stops at the division, and the stack is as it
was before the operation. -/
theorem operation_stops {op : Operator} {m : Machine} {cause : DivisionCause}
    (hrunning : m.returned = false)
    (h : op.result (m.get "rax") (m.get "rdi") = .error cause) :
    ∃ index m', Stops .x86_64 (operation op) m index "idivq" ⟨m', .ofDivision cause⟩ ∧
      m'.stack = m.stack := by
  obtain rfl := Operator.eq_div_of_trap (Operator.result_eq_error_iff.mp h)
  have hextend : m.step? .x86_64 (.instr0 "cqto") = some (.ok (extended m)) := rfl
  have hdivide : (extended m).step? .x86_64 (.instr1 "idivq" rdi) =
      some (.error ⟨extended m, .ofDivision cause⟩) := by
    rw [step_idivq_extended, h]
  exact ⟨1, extended m, .later (by decide) hextend hrunning (.here [] (by decide) hdivide), rfl⟩

/-- The code of an expression that has a value pushes it. -/
theorem expression_pushes {e : Expr} {v : Int64} (h : Expr.eval e = .ok v) {m : Machine}
    (hrunning : m.returned = false) :
    stackUse.Pushes (Code.lines (expression e)) m v := by
  induction e generalizing v m with
  | number loc n =>
      obtain rfl : n.toInt64 = v := by simpa [Expr.eval] using h
      exact pushNumber_pushes n.toInt64 hrunning
  | binary loc op l r ihl ihr =>
      obtain ⟨a, b, hl, hr, hop⟩ := Expr.eval_binary_eq_ok_iff.mp h
      simp only [expression, Code.lines_append, Code.lines_map_plain]
      refine (ihl hl hrunning).binary (fun m₁ hrunning₁ => ihr hr hrunning₁) ?_ hrunning
      rintro m₁ hrunning₁ rfl rfl
      exact operation_computes hrunning₁ hop

/-- The code of an expression without a value stops at a division, for the
reason that evaluation gives. Of the stack it started with nothing is gone. -/
theorem expression_stops {e : Expr} {err : EvalError} (h : Expr.eval e = .error err)
    {m : Machine} (hrunning : m.returned = false) :
    ∃ index m' above,
      Stops .x86_64 (Code.lines (expression e)) m index "idivq" ⟨m', .ofDivision err.cause⟩ ∧
      m'.stack = above ++ m.stack := by
  induction e generalizing m with
  | number loc n => cases h
  | binary loc op l r ihl ihr =>
      simp only [expression, Code.lines_append, Code.lines_map_plain]
      rcases Expr.eval_binary_eq_error_iff.mp h with
        hl | ⟨a, hl, hr⟩ | ⟨a, b, hl, hr, hop, _⟩
      · obtain ⟨index, m', above, hstops, hstack⟩ := ihl hl hrunning
        exact ⟨index, m', above, (hstops.append _).append _, hstack⟩
      · obtain ⟨m₁, hleft, hstack₁, _⟩ := expression_pushes hl hrunning
        obtain ⟨index, m', above, hstops, hstack⟩ :=
          ihr hr (hleft.returned_eq_false hrunning)
        refine ⟨_, m', above ++ [a], (hstops.after hleft).append _, ?_⟩
        rw [hstack, hstack₁, List.append_assoc, List.singleton_append]
      · have hleft := expression_pushes hl hrunning
        obtain ⟨m₁, hoperands, rfl, rfl, hstack₁, _⟩ := hleft.operands_steps
          (fun m₁ hrunning₁ => expression_pushes hr hrunning₁) hrunning
        obtain ⟨index, m', hstops, hstack⟩ :=
          operation_stops (hoperands.returned_eq_false hrunning) hop
        have hall := (hstops.append [(pushq rax).line]).after hoperands
        rw [List.append_assoc _ [stackUse.popRight, stackUse.popLeft],
          ← List.append_assoc [stackUse.popRight, stackUse.popLeft]] at hall
        exact ⟨_, m', [], hall, hstack.trans hstack₁⟩

theorem run_of_eval {e : Expr} {v : Int64} (h : Expr.eval e = .ok v) :
    (Target.program .x86_64Linux e).run = .ok v := by
  rw [Target.program, Target.emitted, Code.lines_append]
  exact (expression_pushes h rfl).run (by decide) rfl (show "ret" ≠ "" by decide) (fun _ => rfl)

theorem run_of_eval_error {e : Expr} {err : EvalError} (h : Expr.eval e = .error err) :
    ∃ index, (Target.program .x86_64Linux e).run =
      .error (.stopped index "idivq" (.ofDivision err.cause)) := by
  obtain ⟨index, m, above, hstops, _⟩ := expression_stops h (m := {}) rfl
  rw [Target.program, Target.emitted, Code.lines_append]
  exact ⟨index, Program.run_of_stops (by decide) (hstops.append _)⟩

/-- Every expression has a program, and a run of it follows evaluation. -/
theorem lower_run (e : Expr) :
    ∃ p, Target.x86_64Linux.lower e = .ok p ∧
      (∀ v, Expr.eval e = .ok v → p.run = .ok v) ∧
      ∀ err, Expr.eval e = .error err →
        ∃ index, p.run = .error (.stopped index "idivq" (.ofDivision err.cause)) :=
  ⟨_, Target.lower_eq_program _ e, fun _ => run_of_eval, fun _ => run_of_eval_error⟩

/-- A run that returns a word returns the value of the expression. -/
theorem eval_of_run {e : Expr} {p : Program} {v : Int64}
    (hlower : Target.x86_64Linux.lower e = .ok p) (h : p.run = .ok v) :
    Expr.eval e = .ok v := by
  obtain ⟨q, hq, hvalue, herror⟩ := lower_run e
  obtain rfl : p = q := Except.ok.inj (hlower.symm.trans hq)
  cases heval : Expr.eval e with
  | ok w =>
      rw [hvalue w heval] at h
      rw [Except.ok.inj h]
  | error err =>
      obtain ⟨index, hstop⟩ := herror err heval
      rw [hstop] at h
      cases h

/-- The compiled program and evaluation agree on every expression: they have
the same value, and where there is none the machine stops with a divide error
of the same cause. It has no other way to fail. -/
theorem run_lower_iff_eval (e : Expr) :
    ∃ p, Target.x86_64Linux.lower e = .ok p ∧
      (∀ v, p.run = .ok v ↔ Expr.eval e = .ok v) ∧
      ((∃ failure, p.run = .error failure) ↔ ∃ err, Expr.eval e = .error err) ∧
      (∀ failure, p.run = .error failure →
        ∃ index op, failure = .stopped index op .divideByZero ∨
          failure = .stopped index op .quotientOverflow) ∧
      ((∃ index op, p.run = .error (.stopped index op .divideByZero)) ↔
        ∃ loc, Expr.eval e = .error ⟨.byZero, loc⟩) ∧
      ((∃ index op, p.run = .error (.stopped index op .quotientOverflow)) ↔
        ∃ loc, Expr.eval e = .error ⟨.overflow, loc⟩) := by
  obtain ⟨p, hlower, hvalue, herror⟩ := lower_run e
  refine ⟨p, hlower, ?_⟩
  cases heval : Expr.eval e with
  | ok v => simp [hvalue v heval]
  | error err =>
      obtain ⟨index, hrun⟩ := herror err heval
      obtain ⟨cause, loc⟩ := err
      cases cause with
      | byZero => simp [hrun, Fault.ofDivision]
      | overflow => simp [hrun, Fault.ofDivision]

end ArithAsm.X86
