import ArithAsm.Machine.X86
import ArithAsm.Machine.AArch64

/-!
Actions on the machine, taken apart. An action that only reads leaves the machine
alone whether it fails or not, so what follows it starts where it started. An
action is clean if it leaves the machine alone when it fails. A sequence is clean
when it first reads and then does something clean, or does something clean and
then something that cannot fail.
-/

namespace ArithAsm

namespace Action

variable {α β : Type} {act : Action α} {next : α → Action β} {m m' : Machine}

@[simp] theorem run_throw (fault : Fault) (m : Machine) :
    (throw fault : Action α).run m = .error fault m := rfl

theorem run_bind_eq_ok_iff {y : β} :
    (act >>= next).run m = .ok y m' ↔
      ∃ x m₁, act.run m = .ok x m₁ ∧ (next x).run m₁ = .ok y m' := by
  rw [EStateM.run_bind]
  cases act.run m with
  | ok x m₁ => simp [and_assoc]
  | error fault m₁ => simp

theorem run_bind_eq_error_iff {fault : Fault} :
    (act >>= next).run m = .error fault m' ↔
      act.run m = .error fault m' ∨
        ∃ x m₁, act.run m = .ok x m₁ ∧ (next x).run m₁ = .error fault m' := by
  rw [EStateM.run_bind]
  cases act.run m with
  | ok x m₁ => simp [and_assoc]
  | error fault m₁ => simp

/-- If the action fails, the machine is as it was. -/
def Clean (act : Action α) : Prop :=
  ∀ m fault m', act.run m = .error fault m' → m' = m

/-- Whether the action fails or not, the machine is as it was. -/
structure ReadOnly (act : Action α) : Prop where
  clean : Clean act
  keeps : ∀ m x m', act.run m = .ok x m' → m' = m

def NeverFails (act : Action α) : Prop :=
  ∀ m fault m', act.run m ≠ .error fault m'

theorem readOnly_pure (x : α) : ReadOnly (pure x : Action α) where
  clean := by
    intro m fault m' h
    cases h
  keeps := by
    intro m y m' h
    cases h
    rfl

theorem readOnly_throw (fault : Fault) : ReadOnly (throw fault : Action α) where
  clean := by
    intro m fault m' h
    cases h
    rfl
  keeps := by
    intro m x m' h
    cases h

theorem readOnly_get : ReadOnly (get : Action Machine) where
  clean := by
    intro m fault m' h
    cases h
  keeps := by
    intro m x m' h
    cases h
    rfl

theorem neverFails_modify (f : Machine → Machine) : NeverFails (modify f : Action Unit) := by
  intro m fault m' h
  cases h

/-- What follows a reading action starts from the same machine. -/
theorem ReadOnly.of_bind_ok (hact : ReadOnly act) {y : β}
    (h : (act >>= next).run m = .ok y m') :
    ∃ x, act.run m = .ok x m ∧ (next x).run m = .ok y m' := by
  obtain ⟨x, m₁, hx, hnext⟩ := run_bind_eq_ok_iff.mp h
  obtain rfl := hact.keeps m x m₁ hx
  exact ⟨x, hx, hnext⟩

theorem ReadOnly.clean_bind (hact : ReadOnly act) (hnext : ∀ x, Clean (next x)) :
    Clean (act >>= next) := by
  intro m fault m' h
  rcases run_bind_eq_error_iff.mp h with hfail | ⟨x, m₁, hx, hfail⟩
  · exact hact.clean m fault m' hfail
  · obtain rfl := hact.keeps m x m₁ hx
    exact hnext x _ fault m' hfail

theorem ReadOnly.bind (hact : ReadOnly act) (hnext : ∀ x, ReadOnly (next x)) :
    ReadOnly (act >>= next) where
  clean := hact.clean_bind fun x => (hnext x).clean
  keeps := by
    intro m y m' h
    obtain ⟨x, _, hy⟩ := hact.of_bind_ok h
    exact (hnext x).keeps m y m' hy

theorem NeverFails.clean (hact : NeverFails act) : Clean act := by
  intro m fault m' h
  exact absurd h (hact m fault m')

theorem Clean.bind (hact : Clean act) (hnext : ∀ x, NeverFails (next x)) :
    Clean (act >>= next) := by
  intro m fault m' h
  rcases run_bind_eq_error_iff.mp h with hfail | ⟨x, m₁, _, hfail⟩
  · exact hact m fault m' hfail
  · exact absurd hfail (hnext x m₁ fault m')

theorem NeverFails.bind (hact : NeverFails act) (hnext : ∀ x, NeverFails (next x)) :
    NeverFails (act >>= next) := by
  intro m fault m' h
  rcases run_bind_eq_error_iff.mp h with hfail | ⟨x, m₁, _, hfail⟩
  · exact hact m fault m' hfail
  · exact hnext x m₁ fault m' hfail

/-- The top of the stack can be taken if there is one. -/
theorem run_popTop_of_cons {value : Int64} {rest : List Int64} (h : m.stack = value :: rest) :
    popTop.run m = .ok value { m with stack := rest } := by
  simp only [popTop, EStateM.run_bind, EStateM.run_get, h, EStateM.run_modify, EStateM.run_pure]

theorem run_popTop_of_nil (h : m.stack = []) : popTop.run m = .error .stackUnderflow m := by
  simp [popTop, h]

theorem exists_of_popTop {value : Int64} (h : popTop.run m = .ok value m') :
    ∃ below, m.stack = value :: below ∧ m' = { m with stack := below } := by
  cases hstack : m.stack with
  | nil =>
      rw [run_popTop_of_nil hstack] at h
      cases h
  | cons top below =>
      rw [run_popTop_of_cons hstack] at h
      cases h
      exact ⟨below, rfl, rfl⟩

theorem clean_popTop : Clean popTop := by
  intro m fault m' h
  cases hstack : m.stack with
  | nil =>
      rw [run_popTop_of_nil hstack] at h
      cases h
      rfl
  | cons value rest =>
      rw [run_popTop_of_cons hstack] at h
      cases h

theorem outcome_eq_ok_iff {act : Action Unit} :
    act.outcome m = .ok m' ↔ act.run m = .ok () m' := by
  unfold outcome
  cases act.run m <;> simp

end Action

open ArithAsm.Action

theorem Line.readOnly_expectArity (l : Line) (count : Nat) : ReadOnly (l.expectArity count) := by
  unfold expectArity
  split
  · exact readOnly_pure ()
  · exact readOnly_throw _

theorem Line.arity_of_expectArity {l : Line} {count : Nat} {m m' : Machine}
    (h : (l.expectArity count).run m = .ok () m') : l.arity = count := by
  unfold expectArity at h
  split at h
  case isTrue harity => exact harity
  case isFalse => cases h

namespace X86

theorem readOnly_read (a : Operand) : ReadOnly (read a) := by
  unfold read
  split
  · exact readOnly_pure _
  split
  · apply readOnly_get.bind
    intro m
    split <;> exact readOnly_pure _
  · exact readOnly_throw _

end X86

namespace AArch64

theorem readOnly_registerName (a : Operand) : ReadOnly (registerName a) := by
  unfold registerName
  split
  · exact readOnly_pure _
  · exact readOnly_throw _

theorem readOnly_read (a : Operand) : ReadOnly (read a) := by
  apply (readOnly_registerName a).bind
  intro reg
  apply readOnly_get.bind
  intro m
  exact readOnly_pure _

end AArch64

end ArithAsm
