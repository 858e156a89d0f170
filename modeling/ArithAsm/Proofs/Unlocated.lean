import ArithAsm.Proofs.Printing

/-!
The parser does not look at locations. It only hands them on, from the lexemes to
the nodes of the tree or to the error. So lexemes that differ in nothing but their
locations are read as trees that differ in nothing else.
-/

namespace ArithAsm

/-- The lexeme as if it stood at the start of a text. -/
def Lexeme.unlocated (l : Lexeme) : Lexeme :=
  { l with loc := .start }

namespace Parser

def Frame.unlocated : Frame → Frame
  | group => group
  | negate _ => negate .start
  | apply _ op left => apply .start op left.unlocated

def State.unlocated : State → State
  | operand stack => operand (stack.map Frame.unlocated)
  | operator stack e => operator (stack.map Frame.unlocated) e.unlocated

/-- An answer of the parser without its locations. -/
def unlocatedAnswer (answer : Except ParseError Expr) : Except ParseError Expr :=
  (answer.map Tree.unlocated).mapError fun err => .ofLexeme err.cause err.got.unlocated

open State

theorem settle_unlocated (stack : List Frame) (e : Expr) :
    settle (stack.map Frame.unlocated) e.unlocated = (settle stack e).unlocated := by
  fun_induction settle stack e with
  | case1 loc stack e ih => exact ih
  | case2 stack e hnegate =>
      cases stack with
      | nil => rfl
      | cons frame stack =>
          cases frame with
          | group | apply => rfl
          | negate loc => exact absurd rfl (hnegate loc stack)

theorem reduce_unlocated (rank : Nat) (stack : List Frame) (e : Expr) :
    reduce rank (stack.map Frame.unlocated) e.unlocated =
      ((reduce rank stack e).1.map Frame.unlocated, (reduce rank stack e).2.unlocated) := by
  fun_induction reduce rank stack e with
  | case1 e loc op left stack hrank ih =>
      rw [List.map_cons, Frame.unlocated, reduce, if_pos hrank]
      exact ih
  | case2 e loc op left stack hrank =>
      rw [List.map_cons, Frame.unlocated, reduce, if_neg hrank]
  | case3 stack e happly =>
      cases stack with
      | nil => rfl
      | cons frame stack =>
          cases frame with
          | group | negate => rfl
          | apply loc op left => exact absurd rfl (happly loc op left stack)

theorem unwind_unlocated (stack : List Frame) (e : Expr) :
    unwind (stack.map Frame.unlocated) e.unlocated =
      ((unwind stack e).1.map Frame.unlocated, (unwind stack e).2.unlocated) := by
  fun_induction unwind stack e with
  | case1 e loc op left stack ih => exact ih
  | case2 e loc stack ih => exact ih
  | case3 stack e happly hnegate =>
      cases stack with
      | nil => rfl
      | cons frame stack =>
          cases frame with
          | group => rfl
          | negate loc => exact absurd rfl (hnegate loc stack)
          | apply loc op left => exact absurd rfl (happly loc op left stack)

theorem shift?_unlocated (s : State) (l : Lexeme) :
    s.unlocated.shift? l.unlocated = (s.shift? l).map State.unlocated := by
  cases s with
  | operand stack =>
      have hkind : l.unlocated.kind = l.kind := rfl
      rw [State.unlocated, shift?, shift?, hkind]
      cases l.kind <;> try rfl
      exact congrArg some (settle_unlocated stack (.number l.loc l.value))
  | operator stack e =>
      have hkind : l.unlocated.kind = l.kind := rfl
      rw [State.unlocated, shift?, shift?, hkind]
      cases l.kind.operator? with
      | some op => simp [reduce_unlocated, State.unlocated, Frame.unlocated, Lexeme.unlocated]
      | none =>
          rcases unwind_cases stack e with ⟨e', hunwind⟩ | ⟨stack', e', hunwind⟩
          · simp only [unwind_unlocated, hunwind]
            cases l.kind <;> rfl
          · simp only [unwind_unlocated, hunwind]
            cases l.kind <;> try rfl
            exact congrArg some (settle_unlocated stack' e')

theorem finish_unlocated (s : State) : s.unlocated.finish = s.finish.map Tree.unlocated := by
  cases s with
  | operand stack => rfl
  | operator stack e =>
      rw [State.unlocated, finish, finish, unwind_unlocated]
      rcases unwind_cases stack e with ⟨e', hunwind⟩ | ⟨stack', e', hunwind⟩
      · rw [hunwind]
        rfl
      · rw [hunwind]
        rfl

theorem run_unlocated (eof : Lexeme) (s : State) (ls : List Lexeme) :
    run eof.unlocated s.unlocated (ls.map Lexeme.unlocated) =
      (unlocatedAnswer (run eof s ls).1, (run eof s ls).2.map Lexeme.unlocated) := by
  induction ls generalizing s with
  | nil =>
      rw [List.map_nil, run, run, finish_unlocated]
      cases s.finish <;> rfl
  | cons l ls ih =>
      rw [List.map_cons, run, run, shift?_unlocated, finish_unlocated]
      cases s.shift? l with
      | some s' => exact ih s'
      | none => cases s.finish <;> rfl

theorem following_unlocated (ls ls' : List Lexeme) {rest rest' : List Lexeme}
    (h : rest.map Lexeme.unlocated = rest'.map Lexeme.unlocated) :
    (following ls rest).unlocated = (following ls' rest').unlocated := by
  cases rest with
  | nil =>
      obtain rfl := List.map_eq_nil_iff.mp h.symm
      rfl
  | cons l rest =>
      cases rest' with
      | nil => cases h
      | cons l' rest' => exact (List.cons.inj h).1

end Parser

open ArithAsm.Parser

/-- Lexemes that are the same up to locations are parsed alike: to the same tree
up to locations, or with the same error at the same lexeme. -/
theorem unlocatedAnswer_parse {ls ls' : List Lexeme}
    (h : ls.map Lexeme.unlocated = ls'.map Lexeme.unlocated) (allowTrailing : Bool) :
    unlocatedAnswer (parse allowTrailing ls) = unlocatedAnswer (parse allowTrailing ls') := by
  cases hrun : run (.eofAt (ofLexemes ls).endLoc) .initial ls with
  | mk answer rest =>
  cases hrun' : run (.eofAt (ofLexemes ls').endLoc) .initial ls' with
  | mk answer' rest' =>
  -- without locations there is only one run
  have hboth : (unlocatedAnswer answer, rest.map Lexeme.unlocated) =
      (unlocatedAnswer answer', rest'.map Lexeme.unlocated) := by
    have hleft := run_unlocated (.eofAt (ofLexemes ls).endLoc) .initial ls
    have hright := run_unlocated (.eofAt (ofLexemes ls').endLoc) .initial ls'
    rw [hrun] at hleft
    rw [hrun', ← h] at hright
    exact hleft.symm.trans hright
  obtain ⟨hanswer, hrest⟩ := Prod.mk.inj hboth
  have hfollowing := following_unlocated ls ls' hrest
  cases answer with
  | error err =>
      cases answer' with
      | ok e' => cases hanswer
      | error err' =>
          rw [parse_of_run_error hrun, parse_of_run_error hrun']
          exact hanswer
  | ok e =>
      cases answer' with
      | error err' => cases hanswer
      | ok e' =>
          rw [parse_of_run_ok hrun, parse_of_run_ok hrun']
          have hkind : (following ls rest).kind = (following ls' rest').kind := by
            simpa [Lexeme.unlocated] using congrArg Lexeme.kind hfollowing
          rw [hkind]
          split
          · exact hanswer
          · exact congrArg (fun l => Except.error (ParseError.ofLexeme .trailingInput l)) hfollowing

end ArithAsm
