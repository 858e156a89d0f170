import ArithAsm.Compilation
import ArithAsm.Proofs.Listing

/-!
Reading alone decides whether a source text compiles. The expression that was
read has a program and a listing on every target, and a run of the program
answers the value that the target gives to the expression.
-/

namespace ArithAsm

namespace Target

/-- The value of an expression on a target. Code for AArch64 goes on after a
division that has no result on x86-64. -/
def value? (t : Target) (e : Expr) : Option Int64 :=
  match t with
  | x86_64Linux => (Expr.eval e).toOption
  | aarch64Linux | aarch64Darwin => some (Expr.totalValue e)

theorem run_of_lower {t : Target} {e : Expr} {p : Program} (h : t.lower e = .ok p)
    (v : Int64) : p.run = .ok v ↔ t.value? e = some v := by
  have harm : t.arch = .aarch64 → (p.run = .ok v ↔ some (Expr.totalValue e) = some v) := by
    intro ht
    obtain ⟨q, hq, hrun⟩ := AArch64.lower_run ht e
    obtain rfl : p = q := Except.ok.inj (h.symm.trans hq)
    simp [hrun]
  cases t with
  | x86_64Linux =>
      obtain ⟨q, hq, hvalue, _⟩ := X86.lower_run e
      obtain rfl : p = q := Except.ok.inj (h.symm.trans hq)
      constructor
      · intro hrun
        simp [value?, X86.eval_of_run h hrun, Except.toOption]
      · intro hv
        cases heval : Expr.eval e with
        | error err => simp [value?, heval, Except.toOption] at hv
        | ok w =>
            obtain rfl : w = v := by simpa [value?, heval, Except.toOption] using hv
            exact hvalue w heval
  | aarch64Linux | aarch64Darwin => exact harm rfl

end Target

theorem Compilation.exists_ofExpr (t : Target) (source : Text) (ls : List Lexeme) (e : Expr) :
    ∃ c, ofExpr t source ls e = .ok c ∧ t.lower e = .ok c.program := by
  have hlower := t.lower_eq_program e
  obtain ⟨assembly, hrender⟩ := Target.render_lower hlower
  refine ⟨⟨source, t, ls, e, t.program e, assembly⟩, ?_, hlower⟩
  simp [ofExpr, hlower, hrender]

/-- A text that is read as an expression compiles, and the program answers the
value of that expression or fails if there is none. -/
theorem compile_of_readExpr {opts : ReadOptions} {source : Text} {e : Expr}
    (h : readExpr opts source = .ok e) (t : Target) :
    ∃ c, compile t opts source = .ok c ∧ ∀ v, c.program.run = .ok v ↔ t.value? e = some v := by
  obtain ⟨ls, hls, he⟩ := Result.bind_eq_ok_iff.mp h
  obtain ⟨c, hc, hlower⟩ := Compilation.exists_ofExpr t source ls e
  refine ⟨c, ?_, Target.run_of_lower hlower⟩
  simp only [compile, hls, he, hc, Result.ok_bind]

theorem compile_of_readExpr_error {opts : ReadOptions} {source : Text} {err : CompileError}
    (h : readExpr opts source = .error err) (t : Target) :
    compile t opts source = .error err := by
  rcases Result.bind_eq_error_iff.mp h with hls | ⟨ls, hls, he⟩
  · simp only [compile, hls, Result.error_bind]
  · simp only [compile, hls, he, Result.ok_bind, Result.error_bind]

/-- The program of a compilation is that of its expression. -/
theorem Compilation.lower_of_ofExpr {t : Target} {source : Text} {ls : List Lexeme} {e : Expr}
    {c : Compilation} (h : ofExpr t source ls e = .ok c) :
    t.lower c.expr = .ok c.program := by
  obtain ⟨p, hlower, h⟩ := Result.bind_eq_ok_iff.mp h
  obtain ⟨assembly, _, h⟩ := Result.bind_eq_ok_iff.mp h
  obtain rfl := Except.ok.inj h
  exact Result.mapError_eq_ok_iff.mp hlower

/-- The program of a text that compiles answers the value of its expression, or
fails if there is none. -/
theorem run_of_compile {t : Target} {opts : ReadOptions} {source : Text} {c : Compilation}
    (h : compile t opts source = .ok c) (v : Int64) :
    c.program.run = .ok v ↔ t.value? c.expr = some v := by
  obtain ⟨ls, _, h⟩ := Result.bind_eq_ok_iff.mp h
  obtain ⟨e, _, hc⟩ := Result.bind_eq_ok_iff.mp h
  exact Target.run_of_lower (Compilation.lower_of_ofExpr hc) v

/-- A text fails to compile only because it cannot be read. -/
theorem compile_error_cases {t : Target} {opts : ReadOptions} {source : Text}
    {err : CompileError} (h : compile t opts source = .error err) :
    (∃ e, tokenize opts.checkedNumbers source = .error e ∧ err = .lexing e) ∨
      ∃ ls e, tokenize opts.checkedNumbers source = .ok ls ∧
        parse opts.allowTrailing ls = .error e ∧ err = .parsing e := by
  rcases Result.bind_eq_error_iff.mp h with hlex | ⟨ls, hls, h⟩
  · obtain ⟨e, he, rfl⟩ := Result.mapError_eq_error_iff.mp hlex
    exact .inl ⟨e, he, rfl⟩
  rcases Result.bind_eq_error_iff.mp h with hparse | ⟨e, _, h⟩
  · obtain ⟨e, he, rfl⟩ := Result.mapError_eq_error_iff.mp hparse
    exact .inr ⟨ls, e, Result.mapError_eq_ok_iff.mp hls, he, rfl⟩
  · obtain ⟨c, hc, _⟩ := Compilation.exists_ofExpr t source ls e
    rw [hc] at h
    cases h

end ArithAsm
