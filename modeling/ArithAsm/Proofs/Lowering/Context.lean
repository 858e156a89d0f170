import ArithAsm.Proofs.StackDepth

/-!
The code of an expression in any surroundings. Whatever the machine has in its
registers and on its stack when it comes to the code, and whatever it compared last,
the code adds the value of the expression to the stack and uses no registers but its
own. What was on the stack stays there at every line of the code: the count of words
never falls below where it started, so a line that pops takes a word of the code.
-/

namespace ArithAsm

open Code

namespace Machine

variable {arch : Arch} {op : String} {m m' : Machine} {above base : List Int64}

/-- A line leaves alone what is below the words above it, unless it pops and there are
none. -/
theorem Effect.suffix_stack (h : Effect op m m') (hstack : m.stack = above ++ base)
    (hpop : op ∈ Line.popNames → above ≠ []) : base <:+ m'.stack := by
  have hbase : base <:+ m.stack := ⟨above, hstack.symm⟩
  cases h with
  | push value _ hquiet =>
      rw [hquiet.stack]
      exact hbase.trans (List.suffix_cons value m.stack)
  | pop value rest hop hcons hquiet =>
      rw [hquiet.stack]
      cases above with
      | nil => exact absurd rfl (hpop hop)
      | cons first above =>
          rw [hstack, List.cons_append] at hcons
          exact ⟨above, (List.cons.inj hcons).2⟩
  | ret _ hquiet =>
      rw [hquiet.stack]
      exact hbase
  | keep _ hquiet =>
      rw [hquiet.stack]
      exact hbase

/-- Code that is counted never to take more words than it finds above the others leaves
the others where they are. -/
theorem Steps.suffix_stack {c : Code} (h : Steps arch c.lines m m') (hc : ∀ x ∈ c, x.Counted)
    (hstack : m.stack = above ++ base) (hlow : ∀ k, 0 ≤ above.length + height c k) :
    base <:+ m'.stack := by
  induction c generalizing m above with
  | nil =>
      cases h
      exact ⟨above, hstack.symm⟩
  | cons x c ih =>
      rw [lines_cons] at h
      cases h with
      | @cons _ _ _ m₁ _ _ hstep _ hrest =>
          have heffect := effect_of_step hstep
          have hx : x.change = _ := hc x List.mem_cons_self
          have hfirst := hlow 1
          rw [height_succ, height_zero] at hfirst
          have hpop : x.line.op ∈ Line.popNames → above ≠ [] := by
            rintro hop rfl
            have hpush : x.line.op ∉ Line.pushNames := fun h => Line.not_mem_popNames h hop
            simp only [Line.isPush, Line.isPop, hpush, hop] at hx
            simp [hx] at hfirst
          obtain ⟨above₁, hstack₁⟩ := heffect.suffix_stack hstack hpop
          refine ih hrest (fun y hy => hc y (List.mem_cons_of_mem x hy)) hstack₁.symm fun k => ?_
          have hlength := heffect.length_stack
          have hbelow := hlow (k + 1)
          rw [height_succ] at hbelow
          rw [← hstack₁, hstack, List.length_append, List.length_append] at hlength
          omega

end Machine

namespace Target

open Machine

variable (t : Target) (e : Expr) {m m₁ : Machine}

/-- At no point of the code of an expression has anything been popped that was not
pushed by it. -/
theorem suffix_of_steps {front : List Line} (hfront : front <+: Code.lines (t.expression e))
    (h : Steps t.arch front m m₁) : m.stack <:+ m₁.stack := by
  have hpolish := t.expression_polish e
  have htake : front = Code.lines ((t.expression e).take front.length) := by
    rw [Code.lines, List.map_take]
    exact List.prefix_iff_eq_take.mp hfront
  have hnothing : m.stack = [] ++ m.stack := rfl
  rw [htake] at h
  refine h.suffix_stack ?_ hnothing fun k => ?_
  · exact fun x hx => (hpolish.forall_counted x (List.mem_of_mem_take hx)).1
  · have hbetween := hpolish.between (min k front.length)
    rw [height, List.take_take]
    simpa [height] using hbetween.1

end Target

namespace Machine

/-- The code of an expression in any machine that has not returned. On x86-64 it pushes
the value that evaluation gives, and if evaluation fails it stops at a division with the
same cause; on AArch64 it pushes the total value. It keeps all registers but its own.
From its first line to its last, or to the division, it pops only what it has pushed. -/
theorem expression_in_context (e : Expr) {m : Machine} (hrunning : m.returned = false) :
    (∀ v, Expr.eval e = .ok v →
      ∃ m', Steps .x86_64 (Code.lines (X86.expression e)) m m' ∧ m'.stack = v :: m.stack ∧
        Keeps ["rax", "rdi", "rdx"] m m') ∧
    (∀ err, Expr.eval e = .error err →
      ∃ index m', Stops .x86_64 (Code.lines (X86.expression e)) m index "idivq"
        ⟨m', .ofDivision err.cause⟩ ∧ m.stack <:+ m'.stack) ∧
    (∃ m', Steps .aarch64 (Code.lines (AArch64.expression e)) m m' ∧
      m'.stack = Expr.totalValue e :: m.stack ∧ Keeps ["x0", "x1"] m m') ∧
    ∀ (t : Target) (front : List Line) (m₁ : Machine), front <+: Code.lines (t.expression e) →
      Steps t.arch front m m₁ → m.stack <:+ m₁.stack := by
  refine ⟨fun v h => X86.expression_pushes h hrunning, ?_, AArch64.expression_pushes e hrunning,
    fun t front m₁ => t.suffix_of_steps e⟩
  intro err h
  obtain ⟨index, m', above, hstops, hstack⟩ := X86.expression_stops h hrunning
  exact ⟨index, m', hstops, above, hstack.symm⟩

/-- A machine in the middle of something else. -/
def busy : Machine where
  registers := ⟨[("rax", -1), ("rdx", 7), ("x0", 4), ("x9", 2)]⟩
  stack := [8, 9]
  compared := (3, 3)

theorem trappingSum_in_context :
    (∃ index m', Stops .x86_64 (Code.lines (X86.expression AArch64.trappingSum)) busy index "idivq"
      ⟨m', .quotientOverflow⟩ ∧ [8, 9] <:+ m'.stack) ∧
    ∃ m', Steps .aarch64 (Code.lines (AArch64.expression AArch64.trappingSum)) busy m' ∧
      m'.stack = [Int64.maxValue, 8, 9] ∧ m'.get "x9" = 2 := by
  have heval : Expr.eval AArch64.trappingSum = .error ⟨.overflow, ⟨1, 1, 0⟩⟩ := rfl
  obtain ⟨_, hstops, ⟨m', hsteps, hstack, hkeeps⟩, _⟩ :=
    expression_in_context AArch64.trappingSum (m := busy) rfl
  exact ⟨hstops _ heval, m', hsteps, hstack, hkeeps "x9" (by decide)⟩

end Machine

end ArithAsm
