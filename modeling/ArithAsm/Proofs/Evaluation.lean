import ArithAsm.Expr.Value
import ArithAsm.Proofs.Result

/-!
Evaluation turned around: what the operands did when an expression has a value,
and where the error comes from when it has none. The total value agrees with
evaluation wherever evaluation succeeds, and differs from it only in how a
division that traps goes on.
-/

namespace ArithAsm

namespace Operator

theorem result_eq_ok_iff {op : Operator} {a b v : Int64} :
    op.result a b = .ok v ↔ op.trap? a b = none ∧ op.totalResult a b = v := by
  unfold result
  cases op.trap? a b <;> simp

theorem result_eq_error_iff {op : Operator} {a b : Int64} {cause : DivisionCause} :
    op.result a b = .error cause ↔ op.trap? a b = some cause := by
  unfold result
  cases op.trap? a b <;> simp

/-- Only a division traps. -/
theorem eq_div_of_trap {op : Operator} {a b : Int64} {cause : DivisionCause}
    (h : op.trap? a b = some cause) : op = .div := by
  cases op <;> simp_all [trap?]

/-- Where an operation has a result this is the total one. A zero divisor gives
zero, and the one quotient that does not fit gives the dividend back. -/
theorem totalResult_eq (op : Operator) (a b : Int64) :
    op.totalResult a b =
      match op.result a b with
      | .ok v => v
      | .error .byZero => 0
      | .error .overflow => Int64.minValue := by
  cases op with
  | div =>
      by_cases hzero : b = 0
      · simp [totalResult, result, trap?, hzero]
      by_cases hover : a = Int64.minValue ∧ b = -1
      · obtain ⟨rfl, rfl⟩ := hover
        rfl
      · simp [totalResult, result, trap?, hzero, hover]
  | _ => rfl

end Operator

namespace Expr

theorem eval_binary_eq_ok_iff {loc : Location} {op : Operator} {l r : Expr} {v : Int64} :
    eval (.binary loc op l r) = .ok v ↔
      ∃ a b, eval l = .ok a ∧ eval r = .ok b ∧ op.result a b = .ok v := by
  simp only [eval, Result.bind_eq_ok_iff, Result.mapError_eq_ok_iff, exists_and_left]

/-- An error comes from the left operand, from the right one after the left one
has a value, or from the operator after both have. -/
theorem eval_binary_eq_error_iff {loc : Location} {op : Operator} {l r : Expr}
    {err : EvalError} :
    eval (.binary loc op l r) = .error err ↔
      eval l = .error err ∨
      (∃ a, eval l = .ok a ∧ eval r = .error err) ∨
      ∃ a b, eval l = .ok a ∧ eval r = .ok b ∧
        op.result a b = .error err.cause ∧ err.loc = loc := by
  have hcause (a b : Int64) : (∃ cause, op.result a b = .error cause ∧ ⟨cause, loc⟩ = err) ↔
      op.result a b = .error err.cause ∧ err.loc = loc := by
    constructor
    · rintro ⟨cause, hresult, rfl⟩
      exact ⟨hresult, rfl⟩
    · rintro ⟨hresult, rfl⟩
      exact ⟨err.cause, hresult, rfl⟩
  simp only [eval, Result.bind_eq_error_iff, Result.mapError_eq_error_iff, hcause, exists_and_left,
    and_or_left, exists_or]

/-- Where evaluation succeeds, the total value is its answer. -/
theorem totalValue_of_eval {e : Expr} {v : Int64} (h : eval e = .ok v) :
    totalValue e = v := by
  induction e generalizing v with
  | number loc n => simpa [eval, totalValue] using h
  | binary loc op l r ihl ihr =>
      obtain ⟨a, b, hl, hr, hop⟩ := eval_binary_eq_ok_iff.mp h
      rw [totalValue, ihl hl, ihr hr]
      exact (Operator.result_eq_ok_iff.mp hop).2

end Expr

/-- The exit status is the low byte of the value, also of a negative one. -/
theorem natCast_exitStatus (v : Int64) : (exitStatus v : Int) = v.toInt % 256 := by
  have hnonneg : 0 ≤ v.toInt % 256 := by omega
  exact Int.toNat_of_nonneg hnonneg

end ArithAsm
