import ArithAsm.Expr.Value
import ArithAsm.Machine.Run
import ArithAsm.Proofs.Result

/-!
Runs taken apart. `Steps` says that a block of lines is executed from its first
line to its last, `Stops` that one of its lines cannot be executed. Blocks that
follow each other compose, so what a block does can be said once and used
wherever the block stands in a program.
-/

namespace ArithAsm

namespace Machine

/-- All lines are executed, and the program has not returned after any of
them. -/
inductive Steps (arch : Arch) : List Line → Machine → Machine → Prop
  | nil (m : Machine) : Steps arch [] m m
  | cons {l : Line} {ls : List Line} {m m₁ m₂ : Machine} (hop : l.op ≠ "")
      (hstep : m.step? arch l = some (.ok m₁)) (hrunning : m₁.returned = false)
      (hrest : Steps arch ls m₁ m₂) : Steps arch (l :: ls) m m₂

/-- The lines before the given index are executed, and the one at the index,
whose mnemonic is `op`, fails. -/
inductive Stops (arch : Arch) : List Line → Machine → Nat → String → Stop → Prop
  | here {l : Line} {m : Machine} {stop : Stop} (ls : List Line) (hop : l.op ≠ "")
      (hstep : m.step? arch l = some (.error stop)) : Stops arch (l :: ls) m 0 l.op stop
  | later {l : Line} {ls : List Line} {m m₁ : Machine} {index : Nat} {op : String}
      {stop : Stop} (hop : l.op ≠ "") (hstep : m.step? arch l = some (.ok m₁))
      (hrunning : m₁.returned = false) (hrest : Stops arch ls m₁ index op stop) :
      Stops arch (l :: ls) m (index + 1) op stop

/-- All lines are executed, from any machine, also from one that has returned. -/
inductive Executes (arch : Arch) : List Line → Machine → Machine → Prop
  | nil (m : Machine) : Executes arch [] m m
  | cons {l : Line} {ls : List Line} {m m₁ m₂ : Machine}
      (hstep : m.step? arch l = some (.ok m₁)) (hrest : Executes arch ls m₁ m₂) :
      Executes arch (l :: ls) m m₂

variable {arch : Arch} {ls rest : List Line} {m m₁ m₂ : Machine}
variable {index : Nat} {op : String} {stop : Stop}

theorem Steps.single {l : Line} (hop : l.op ≠ "") (hstep : m.step? arch l = some (.ok m₁))
    (hrunning : m₁.returned = false) : Steps arch [l] m m₁ :=
  .cons hop hstep hrunning (.nil m₁)

theorem Steps.append (h : Steps arch ls m m₁) (hrest : Steps arch rest m₁ m₂) :
    Steps arch (ls ++ rest) m m₂ := by
  induction h with
  | nil m => exact hrest
  | cons hop hstep hrunning _ ih => exact .cons hop hstep hrunning (ih hrest)

theorem Steps.unique (h : Steps arch ls m m₁) (h' : Steps arch ls m m₂) : m₁ = m₂ := by
  induction h with
  | nil m =>
      cases h'
      rfl
  | cons _ hstep _ _ ih =>
      cases h' with
      | cons _ hstep' _ hrest' =>
          obtain rfl := Except.ok.inj (Option.some.inj (hstep.symm.trans hstep'))
          exact ih hrest'

theorem Steps.returned_eq_false (h : Steps arch ls m m₁) (hrunning : m.returned = false) :
    m₁.returned = false := by
  induction h with
  | nil m => exact hrunning
  | cons _ _ hnext _ ih => exact ih hnext

theorem Executes.append (h : Executes arch ls m m₁) (hrest : Executes arch rest m₁ m₂) :
    Executes arch (ls ++ rest) m m₂ := by
  induction h with
  | nil m => exact hrest
  | cons hstep _ ih => exact .cons hstep (ih hrest)

theorem Stops.append (h : Stops arch ls m index op stop) (rest : List Line) :
    Stops arch (ls ++ rest) m index op stop := by
  induction h with
  | here ls hop hstep => exact .here (ls ++ rest) hop hstep
  | later hop hstep hrunning _ ih => exact .later hop hstep hrunning ih

theorem Stops.after (h : Stops arch rest m₁ index op stop) (hsteps : Steps arch ls m m₁) :
    Stops arch (ls ++ rest) m (ls.length + index) op stop := by
  induction hsteps with
  | nil m => simpa using h
  | @cons l ls _ _ _ hop hstep hrunning _ ih =>
      rw [List.length_cons, Nat.add_right_comm]
      exact .later hop hstep hrunning (ih h)

theorem runLines_of_steps (h : Steps arch ls m m₁) (start : Nat) (rest : List Line) :
    runLines arch start (ls ++ rest) m = runLines arch (start + ls.length) rest m₁ := by
  induction h generalizing start with
  | nil m => rfl
  | cons hop hstep hrunning _ ih =>
      rw [List.cons_append, runLines, if_neg hop, hstep]
      simp only [hrunning, Bool.false_eq_true, if_false]
      rw [ih, List.length_cons, Nat.add_right_comm, Nat.add_assoc]

theorem runLines_of_stops (h : Stops arch ls m index op stop) (start : Nat) :
    runLines arch start ls m = .error (.stopped (start + index) op stop.fault) := by
  induction h generalizing start with
  | here ls hop hstep =>
      rw [runLines, if_neg hop, hstep]
      rfl
  | later hop hstep hrunning _ ih =>
      rw [runLines, if_neg hop, hstep]
      simp only [hrunning, Bool.false_eq_true, if_false]
      rw [ih, Nat.add_right_comm, Nat.add_assoc]

/-- Only registers of the list differ. -/
def Keeps (scratch : List String) (m m' : Machine) : Prop :=
  ∀ name, name ∉ scratch → m'.get name = m.get name

theorem Keeps.refl (scratch : List String) (m : Machine) : Keeps scratch m m :=
  fun _ _ => rfl

theorem Keeps.trans {scratch : List String} (h : Keeps scratch m m₁)
    (h' : Keeps scratch m₁ m₂) : Keeps scratch m m₂ :=
  fun name hname => (h' name hname).trans (h name hname)

theorem Keeps.set {scratch : List String} {name : String} (h : Keeps scratch m m₁)
    (hname : name ∈ scratch) (value : Int64) : Keeps scratch m (m₁.set name value) := by
  intro other hother
  have hne : other ≠ name := fun heq => hother (heq ▸ hname)
  rw [get_set_ne m₁ value hne]
  exact h other hother

end Machine

/-- The condition that a comparison tests. -/
def Condition.ofOperator : Operator → Condition
  | .ne => .ne
  | .lt => .lt
  | .le => .le
  | .gt => .gt
  | .ge => .ge
  | _ => .eq

/-- Comparing two words and testing the condition gives the truth value that
the operator stands for. -/
theorem Machine.test_compare {op : Operator} (h : op.isComparison = true) (m : Machine)
    (a b : Int64) : (m.compare a b).test (.ofOperator op) = op.totalResult a b := by
  unfold Machine.test Machine.compare
  cases op with
  | add | sub | mul | div => cases h
  | _ =>
      simp only [Condition.ofOperator, Condition.holds, Operator.totalResult, Operator.truth,
        decide_eq_true_eq]

/-- The fault of the machine that goes with a division without a result. -/
def Fault.ofDivision : DivisionCause → Fault
  | .byZero => .divideByZero
  | .overflow => .quotientOverflow

namespace Program

open Machine

variable {arch : Arch} {ls : List Line} {m m₁ : Machine} {index : Nat} {op : String} {stop : Stop}

/-- A program that reaches a return with nothing on its stack answers with the
result register. -/
theorem run_of_steps (harch : arch ≠ .unknown) (h : Steps arch ls {} m) {ret : Line}
    (hop : ret.op ≠ "") (hstep : m.step? arch ret = some (.ok m₁))
    (hreturned : m₁.returned = true) (hstack : m₁.stack = []) :
    run ⟨arch, [⟨"main", ls ++ [ret]⟩]⟩ = .ok (m₁.get (resultRegister arch)) := by
  have hlines : runLines arch 0 (ls ++ [ret]) {} = .ok m₁ := by
    rw [runLines_of_steps h, runLines, if_neg hop, hstep]
    simp only [hreturned, if_true]
  simp [run, harch, main?, hlines, hstack]

theorem run_of_stops (harch : arch ≠ .unknown) (h : Stops arch ls {} index op stop) :
    run ⟨arch, [⟨"main", ls⟩]⟩ = .error (.stopped index op stop.fault) := by
  have hlines := runLines_of_stops h 0
  rw [Nat.zero_add] at hlines
  simp [run, harch, main?, hlines]

end Program

end ArithAsm
