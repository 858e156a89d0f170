import ArithAsm.Proofs.Execution

/-!
What the code generators have in common. Operands wait on the stack, an
operation takes two of them into registers, and its result goes back on the
stack. An architecture says which registers and which lines do that; how the
blocks of an expression fit together is proved here for all of them.
-/

namespace ArithAsm

open Machine

/-- The use that code makes of the stack: the registers of the two operands,
the lines that move words between them and the stack, and the registers that
may change. The left operand's register receives results. -/
structure StackUse where
  arch : Arch
  left : String
  right : String
  scratch : List String
  push : Line
  popLeft : Line
  popRight : Line
  right_ne_left : right ≠ left
  left_mem : left ∈ scratch
  right_mem : right ∈ scratch
  push_steps (m : Machine) (hrunning : m.returned = false) :
    Steps arch [push] m (m.push (m.get left))
  popLeft_steps (m : Machine) {value : Int64} {rest : List Int64}
    (hrunning : m.returned = false) (hstack : m.stack = value :: rest) :
    Steps arch [popLeft] m (({ m with stack := rest } : Machine).set left value)
  popRight_steps (m : Machine) {value : Int64} {rest : List Int64}
    (hrunning : m.returned = false) (hstack : m.stack = value :: rest) :
    Steps arch [popRight] m (({ m with stack := rest } : Machine).set right value)

namespace StackUse

variable (u : StackUse) {m m₁ : Machine} {ls rs ops : List Line} {a b v : Int64}

/-- The lines push a word, and besides that change only scratch registers. -/
def Pushes (ls : List Line) (m : Machine) (v : Int64) : Prop :=
  ∃ m', Steps u.arch ls m m' ∧ m'.stack = v :: m.stack ∧ Keeps u.scratch m m'

/-- The lines compute a word in the left register, with the same stack. -/
def Computes (ls : List Line) (m : Machine) (v : Int64) : Prop :=
  ∃ m', Steps u.arch ls m m' ∧ m'.get u.left = v ∧ m'.stack = m.stack ∧ Keeps u.scratch m m'

/-- Lines push one word only, so they tell which one it is. -/
theorem Pushes.unique {u : StackUse} (h : u.Pushes ls m a) (h' : u.Pushes ls m b) : a = b := by
  obtain ⟨m₁, hsteps₁, hstack₁, _⟩ := h
  obtain ⟨m₂, hsteps₂, hstack₂, _⟩ := h'
  rw [hsteps₁.unique hsteps₂, hstack₂] at hstack₁
  exact (List.cons.inj hstack₁).1.symm

theorem Computes.push {u : StackUse} (h : u.Computes ls m v) (hrunning : m.returned = false) :
    u.Pushes (ls ++ [u.push]) m v := by
  obtain ⟨m', hsteps, hvalue, hstack, hkeep⟩ := h
  have hpush := u.push_steps m' (hsteps.returned_eq_false hrunning)
  refine ⟨m'.push (m'.get u.left), hsteps.append hpush, ?_, hkeep⟩
  rw [stack_push, hvalue, hstack]

/-- The operands come off the stack, the right one first. -/
theorem operands_steps {rest : List Int64} (hrunning : m.returned = false)
    (hstack : m.stack = b :: a :: rest) :
    ∃ m', Steps u.arch [u.popRight, u.popLeft] m m' ∧ m'.get u.left = a ∧
      m'.get u.right = b ∧ m'.stack = rest ∧ Keeps u.scratch m m' := by
  let m₁ : Machine := ({ m with stack := a :: rest } : Machine).set u.right b
  let m₂ : Machine := ({ m₁ with stack := rest } : Machine).set u.left a
  have hright : Steps u.arch [u.popRight] m m₁ := u.popRight_steps m hrunning hstack
  have hleft : Steps u.arch [u.popLeft] m₁ m₂ := u.popLeft_steps m₁ hrunning rfl
  have hkept : Keeps u.scratch m m₁ := (Keeps.refl u.scratch m).set u.right_mem b
  refine ⟨m₂, hright.append hleft, get_set_same _ _ _, ?_, rfl, Keeps.set hkept u.left_mem a⟩
  calc
    m₂.get u.right = m₁.get u.right := get_set_ne _ _ u.right_ne_left
    _ = b := get_set_same _ _ _

variable {u}

/-- After the code of both operands and the two lines that fetch them, the
registers hold the operands and the stack is what it was. -/
theorem Pushes.operands_steps (hleft : u.Pushes ls m a)
    (hright : ∀ m₁, m₁.returned = false → u.Pushes rs m₁ b) (hrunning : m.returned = false) :
    ∃ m', Steps u.arch ((ls ++ rs) ++ [u.popRight, u.popLeft]) m m' ∧ m'.get u.left = a ∧
      m'.get u.right = b ∧ m'.stack = m.stack ∧ Keeps u.scratch m m' := by
  obtain ⟨m₁, hsteps₁, hstack₁, hkeep₁⟩ := hleft
  have hrunning₁ := hsteps₁.returned_eq_false hrunning
  obtain ⟨m₂, hsteps₂, hstack₂, hkeep₂⟩ := hright m₁ hrunning₁
  have hrunning₂ := hsteps₂.returned_eq_false hrunning₁
  rw [hstack₁] at hstack₂
  obtain ⟨m₃, hpops, hleft₃, hright₃, hstack₃, hkeep₃⟩ := u.operands_steps hrunning₂ hstack₂
  exact ⟨m₃, (hsteps₁.append hsteps₂).append hpops, hleft₃, hright₃, hstack₃,
    (hkeep₁.trans hkeep₂).trans hkeep₃⟩

/-- The code of an operation pushes its result. -/
theorem Pushes.binary (hleft : u.Pushes ls m a)
    (hright : ∀ m₁, m₁.returned = false → u.Pushes rs m₁ b)
    (hops : ∀ m₁, m₁.returned = false → m₁.get u.left = a → m₁.get u.right = b →
      u.Computes ops m₁ v) (hrunning : m.returned = false) :
    u.Pushes ((ls ++ rs) ++ (([u.popRight, u.popLeft] ++ ops) ++ [u.push])) m v := by
  obtain ⟨m₁, hsteps₁, ha, hb, hstack₁, hkeep₁⟩ := hleft.operands_steps hright hrunning
  obtain ⟨m₂, hsteps₂, hvalue, hstack₂, hkeep₂⟩ :=
    hops m₁ (hsteps₁.returned_eq_false hrunning) ha hb
  have hcomputes : u.Computes (((ls ++ rs) ++ [u.popRight, u.popLeft]) ++ ops) m v :=
    ⟨m₂, hsteps₁.append hsteps₂, hvalue, hstack₂.trans hstack₁, hkeep₁.trans hkeep₂⟩
  simpa only [List.append_assoc] using hcomputes.push hrunning

/-- A program that pushes a word, fetches it into the result register and
returns answers that word. -/
theorem Pushes.run {ret : Line} (h : u.Pushes ls {} v) (harch : u.arch ≠ .unknown)
    (hleft : Program.resultRegister u.arch = u.left) (hop : ret.op ≠ "")
    (hret : ∀ m : Machine, m.step? u.arch ret = some (.ok { m with returned := true })) :
    Program.run ⟨u.arch, [⟨"main", ls ++ [u.popLeft, ret]⟩]⟩ = .ok v := by
  obtain ⟨m, hsteps, hstack, _⟩ := h
  have hpop := u.popLeft_steps m (hsteps.returned_eq_false rfl) hstack
  have hrun := Program.run_of_steps harch (hsteps.append hpop) hop (hret _) rfl rfl
  rw [List.append_assoc, List.singleton_append] at hrun
  rw [hrun, hleft]
  exact congrArg Except.ok (get_set_same _ _ _)

end StackUse

end ArithAsm
