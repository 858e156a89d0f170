import ArithAsm.Proofs.StackDiscipline

/-!
What an instruction that fails leaves behind. All instructions but one make their
checks before their first change, and so leave the machine as it was. The exception
is the x86-64 pop: it takes the top of the stack first, and the word is gone when
the destination turns out to be no register.
-/

namespace ArithAsm

namespace X86

open ArithAsm.Action

theorem clean_write (a : Operand) (value : Int64) : Clean (write a value) := by
  unfold write
  split
  · split <;> exact (neverFails_modify _).clean
  · exact (readOnly_throw _).clean

theorem not_plain_of_write {a : Operand} {value : Int64} {m m' : Machine} {fault : Fault}
    (h : (write a value).run m = .error fault m') : a.isPlainRegister = false := by
  unfold write at h
  split at h
  · split at h <;> cases h
  case isFalse hplain => exact Bool.eq_false_iff.mpr hplain

theorem clean_push (l : Line) : Clean (push l) := by
  apply (l.readOnly_expectArity 1).clean_bind
  intro _
  apply (readOnly_read l.first).clean_bind
  intro value
  split
  · exact (readOnly_throw _).clean
  · exact (neverFails_modify _).clean

theorem clean_move (l : Line) : Clean (move l) := by
  apply (l.readOnly_expectArity 2).clean_bind
  intro _
  apply (readOnly_read l.first).clean_bind
  intro value
  exact clean_write l.second value

theorem clean_arith (f : Arith) (l : Line) : Clean (arith f l) := by
  apply (l.readOnly_expectArity 2).clean_bind
  intro _
  apply (readOnly_read l.first).clean_bind
  intro src
  apply (readOnly_read l.second).clean_bind
  intro dst
  exact clean_write l.second _

theorem clean_extendSign (l : Line) : Clean (extendSign l) := by
  apply (l.readOnly_expectArity 0).clean_bind
  intro _
  exact (neverFails_modify _).clean

theorem clean_divide (l : Line) : Clean (divide l) := by
  apply (l.readOnly_expectArity 1).clean_bind
  intro _
  apply (readOnly_read l.first).clean_bind
  intro divisor
  apply readOnly_get.clean_bind
  intro m
  dsimp only
  split
  · exact (readOnly_throw _).clean
  split
  · exact (readOnly_throw _).clean
  split
  · exact (readOnly_throw _).clean
  -- The quotient and the remainder are written one after the other, with no check between.
  · exact ((neverFails_modify _).bind fun _ => neverFails_modify _).clean

theorem clean_compareOperands (l : Line) : Clean (compareOperands l) := by
  apply (l.readOnly_expectArity 2).clean_bind
  intro _
  apply (readOnly_read l.first).clean_bind
  intro src
  apply (readOnly_read l.second).clean_bind
  intro dst
  exact (neverFails_modify _).clean

theorem clean_setByte (c : Condition) (l : Line) : Clean (setByte c l) := by
  apply (l.readOnly_expectArity 1).clean_bind
  intro _
  apply readOnly_get.clean_bind
  intro m
  exact clean_write l.first _

theorem clean_extendByte (l : Line) : Clean (extendByte l) := by
  apply (l.readOnly_expectArity 2).clean_bind
  intro _
  split
  · exact (readOnly_throw _).clean
  · apply (readOnly_read l.first).clean_bind
    intro value
    exact clean_write l.second value

theorem clean_ret (l : Line) : Clean (ret l) := by
  apply (l.readOnly_expectArity 0).clean_bind
  intro _
  exact (neverFails_modify _).clean

theorem clean_effect {i : Mnemonic} (hi : i ≠ .pop) (l : Line) : Clean (effect i l) := by
  cases i with
  | pop => exact absurd rfl hi
  | push => exact clean_push l
  | move => exact clean_move l
  | arith f => exact clean_arith f l
  | extendSign => exact clean_extendSign l
  | divide => exact clean_divide l
  | compare => exact clean_compareOperands l
  | set c => exact clean_setByte c l
  | extendByte => exact clean_extendByte l
  | ret => exact clean_ret l

/-- The line asks to pop a word into something that is no register, and there is
a word to pop. -/
def LosesTop (l : Line) (m : Machine) : Prop :=
  l.arity = 1 ∧ m.stack ≠ [] ∧ l.first.isPlainRegister = false

instance (l : Line) (m : Machine) : Decidable (LosesTop l m) :=
  inferInstanceAs (Decidable (_ ∧ _))

theorem run_pop_of_losesTop {l : Line} {m : Machine} (h : LosesTop l m) :
    (pop l).run m =
      .error (.unsupported (.destination l.first)) { m with stack := m.stack.tail } := by
  obtain ⟨harity, hstack, hplain⟩ := h
  obtain ⟨value, rest, hcons⟩ := List.exists_cons_of_ne_nil hstack
  simp [pop, Line.expectArity, harity, run_popTop_of_cons hcons, write, hplain, hcons]

/-- A pop that fails for another reason takes nothing. -/
theorem eq_of_pop_error {l : Line} {m m' : Machine} {fault : Fault} (hkeeps : ¬ LosesTop l m)
    (h : (pop l).run m = .error fault m') : m' = m := by
  rcases run_bind_eq_error_iff.mp h with harity | ⟨_, m₁, harity, hrest⟩
  · exact (l.readOnly_expectArity 1).clean m fault m' harity
  obtain rfl := (l.readOnly_expectArity 1).keeps m _ m₁ harity
  rcases run_bind_eq_error_iff.mp hrest with hpop | ⟨value, m₂, hpop, hwrite⟩
  · exact clean_popTop _ fault m' hpop
  · obtain ⟨below, hstack, rfl⟩ := exists_of_popTop hpop
    have hnonempty : m₁.stack ≠ [] := by simp [hstack]
    exact absurd ⟨Line.arity_of_expectArity harity, hnonempty, not_plain_of_write hwrite⟩ hkeeps

theorem machine_of_effect_error {i : Mnemonic} {l : Line} {m m' : Machine} {fault : Fault}
    (h : (effect i l).run m = .error fault m') :
    m' = if i = .pop ∧ LosesTop l m then { m with stack := m.stack.tail } else m := by
  by_cases hpop : i = .pop
  · subst hpop
    by_cases hloses : LosesTop l m
    · rw [if_pos ⟨rfl, hloses⟩]
      have hrun := run_pop_of_losesTop hloses
      exact (EStateM.Result.error.inj (h.symm.trans hrun)).2
    · rw [if_neg fun hand => hloses hand.2]
      exact eq_of_pop_error hloses h
  · rw [if_neg fun hand => hpop hand.1]
    exact clean_effect hpop l m fault m' h

/-- `popq` is the only name of the pop. -/
theorem eq_pop_iff {name : String} {i : Mnemonic} (h : Mnemonic.ofName? name = some i) :
    i = .pop ↔ name = "popq" := by
  constructor
  · rintro rfl
    exact (Mnemonic.name_of_ofName? h).symm
  · rintro rfl
    exact (Option.some.inj h).symm

end X86

namespace AArch64

open ArithAsm.Action

theorem clean_move (l : Line) : Clean (move l) := by
  apply (l.readOnly_expectArity 2).clean_bind
  intro _
  apply (readOnly_registerName l.first).clean_bind
  intro dst
  split
  · apply (readOnly_read l.second).clean_bind
    intro value
    exact (neverFails_modify _).clean
  split
  · exact (neverFails_modify _).clean
  · exact (readOnly_throw _).clean

theorem clean_moveKeep (l : Line) : Clean (moveKeep l) := by
  apply (l.readOnly_expectArity 3).clean_bind
  intro _
  apply (readOnly_registerName l.first).clean_bind
  intro dst
  split
  · exact (readOnly_throw _).clean
  dsimp only
  split
  · exact (neverFails_modify _).clean
  · exact (readOnly_throw _).clean

theorem clean_store (l : Line) : Clean (store l) := by
  apply (l.readOnly_expectArity 2).clean_bind
  intro _
  dsimp only
  split
  · apply (readOnly_read l.first).clean_bind
    intro value
    exact (neverFails_modify _).clean
  · exact (readOnly_throw _).clean

/-- Here the destination is looked at before the stack. -/
theorem clean_load (l : Line) : Clean (load l) := by
  apply (l.readOnly_expectArity 2).clean_bind
  intro _
  dsimp only
  split
  · apply (readOnly_registerName l.first).clean_bind
    intro dst
    apply clean_popTop.bind
    intro value
    exact neverFails_modify _
  · exact (readOnly_throw _).clean

theorem clean_arith (f : Arith) (l : Line) : Clean (arith f l) := by
  apply (l.readOnly_expectArity 3).clean_bind
  intro _
  apply (readOnly_registerName l.first).clean_bind
  intro dst
  apply (readOnly_read l.second).clean_bind
  intro a
  apply (readOnly_read l.third).clean_bind
  intro b
  exact (neverFails_modify _).clean

theorem clean_compareOperands (l : Line) : Clean (compareOperands l) := by
  apply (l.readOnly_expectArity 2).clean_bind
  intro _
  apply (readOnly_read l.first).clean_bind
  intro a
  apply (readOnly_read l.second).clean_bind
  intro b
  exact (neverFails_modify _).clean

theorem clean_setCondition (l : Line) : Clean (setCondition l) := by
  apply (l.readOnly_expectArity 2).clean_bind
  intro _
  apply (readOnly_registerName l.first).clean_bind
  intro dst
  split
  · exact (neverFails_modify _).clean
  · exact (readOnly_throw _).clean

theorem clean_ret (l : Line) : Clean (ret l) := by
  apply (l.readOnly_expectArity 0).clean_bind
  intro _
  exact (neverFails_modify _).clean

theorem clean_effect (i : Mnemonic) (l : Line) : Clean (effect i l) := by
  cases i with
  | move => exact clean_move l
  | moveKeep => exact clean_moveKeep l
  | store => exact clean_store l
  | load => exact clean_load l
  | arith f => exact clean_arith f l
  | compare => exact clean_compareOperands l
  | set => exact clean_setCondition l
  | ret => exact clean_ret l

end AArch64

namespace Machine

/-- An instruction that fails leaves registers, stack, compared words and the
progress of the run as they were, whatever its operands are. The one exception is a
pop of x86-64 into something that is no register: if there is a word to pop, it
fails, and this word is gone and nothing else. -/
theorem instruction_failure {arch : Arch} {name : String} {act : Line → Action Unit}
    (hact : instruction? arch name = some act) (l : Line) (m : Machine) :
    (∀ fault m', (act l).run m = .error fault m' →
      m' = if arch ≠ .aarch64 ∧ name = "popq" ∧ X86.LosesTop l m then
          { m with stack := m.stack.tail }
        else m) ∧
    (arch ≠ .aarch64 → name = "popq" → X86.LosesTop l m →
      ∃ fault m', (act l).run m = .error fault m') := by
  cases arch with
  | aarch64 =>
      obtain ⟨i, _, rfl⟩ := Option.map_eq_some_iff.mp hact
      refine ⟨?_, fun harch => absurd rfl harch⟩
      intro fault m' h
      rw [if_neg fun hand => hand.1 rfl]
      exact AArch64.clean_effect i l m fault m' h
  | x86_64 | unknown =>
      obtain ⟨i, hi, rfl⟩ := Option.map_eq_some_iff.mp hact
      have hpop := X86.eq_pop_iff hi
      constructor
      · intro fault m' h
        simpa [hpop] using X86.machine_of_effect_error h
      · intro _ hname hloses
        obtain rfl := hpop.mpr hname
        exact ⟨_, _, X86.run_pop_of_losesTop hloses⟩

/-- In the middle of a computation, about to divide by zero. -/
def beforeDivision : Machine where
  registers := ⟨[("rax", 7), ("rdx", 0)]⟩
  stack := [9, 4]
  compared := (1, 2)

theorem instruction_failure_beforeDivision :
    (∃ fault m', (X86.pop (.instr1 "popq" (.immediate 5))).run beforeDivision =
      .error fault m' ∧ m' = { beforeDivision with stack := [4] }) ∧
    ∃ fault m', (X86.divide (.instr1 "idivq" X86.rdi)).run beforeDivision =
      .error fault m' ∧ m' = beforeDivision := by
  have hpop : instruction? .x86_64 "popq" = some X86.pop := rfl
  have hdivide : instruction? .x86_64 "idivq" = some X86.divide := rfl
  obtain ⟨hpopped, hfails⟩ :=
    instruction_failure hpop (.instr1 "popq" (.immediate 5)) beforeDivision
  obtain ⟨hdivided, _⟩ := instruction_failure hdivide (.instr1 "idivq" X86.rdi) beforeDivision
  constructor
  · obtain ⟨fault, m', h⟩ := hfails (by decide) rfl (by decide)
    exact ⟨fault, m', h, hpopped fault m' h⟩
  · exact ⟨.divideByZero, _, rfl, hdivided _ _ rfl⟩

end Machine

end ArithAsm
