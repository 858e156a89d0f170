import ArithAsm.Proofs.Actions

/-!
What each instruction does. If an instruction can be executed at all, the machine
after it is a function of the line and the machine before it. There is one statement
for each instruction, and all that is said elsewhere about single steps follows from
these.
-/

namespace ArithAsm

open ArithAsm.Action

variable {m m' : Machine} {l : Line}

namespace X86

/-- The word that an operand stands for. -/
def value (m : Machine) (a : Operand) : Int64 :=
  match a.imm with
  | some word => word
  | none => if a.reg = "al" then m.get "rax" &&& 0xff else m.get a.reg

/-- The machine with a word written to an operand. Of a word that goes to `al` only
the low byte is written. -/
def written (m : Machine) (a : Operand) (word : Int64) : Machine :=
  if a.reg = "al" then m.set "rax" ((m.get "rax" &&& ~~~0xff) ||| (word &&& 0xff))
  else m.set a.reg word

theorem eq_value_of_read {a : Operand} {word : Int64} (h : (read a).run m = .ok word m') :
    word = value m a := by
  unfold read at h
  cases himm : a.imm with
  | some immediate =>
      rw [himm] at h
      cases h
      simp only [value, himm]
  | none =>
      rw [himm] at h
      simp only [value, himm]
      dsimp only at h
      split at h
      · obtain ⟨_, hget, h⟩ := readOnly_get.of_bind_ok h
        cases hget
        split at h
        case isTrue hal =>
          cases h
          rw [if_pos hal]
        case isFalse hal =>
          cases h
          rw [if_neg hal]
      · cases h

theorem eq_of_write {a : Operand} {word : Int64} (h : (write a word).run m = .ok () m') :
    m' = written m a word := by
  unfold write at h
  unfold written
  split at h
  · split at h
    case isTrue hal =>
      cases h
      rw [if_pos hal]
    case isFalse hal =>
      cases h
      rw [if_neg hal]
  · cases h

theorem eq_of_push (h : (push l).run m = .ok () m') : m' = m.push (value m l.first) := by
  obtain ⟨_, _, h⟩ := (l.readOnly_expectArity 1).of_bind_ok h
  obtain ⟨word, hread, h⟩ := (readOnly_read l.first).of_bind_ok h
  obtain rfl := eq_value_of_read hread
  split at h
  · cases h
  · cases h
    rfl

theorem exists_of_pop (h : (pop l).run m = .ok () m') :
    ∃ top below, m.stack = top :: below ∧
      m' = written { m with stack := below } l.first top := by
  obtain ⟨_, _, h⟩ := (l.readOnly_expectArity 1).of_bind_ok h
  obtain ⟨top, m₁, hpop, h⟩ := run_bind_eq_ok_iff.mp h
  obtain ⟨below, hstack, rfl⟩ := exists_of_popTop hpop
  exact ⟨top, below, hstack, eq_of_write h⟩

theorem eq_of_move (h : (move l).run m = .ok () m') :
    m' = written m l.second (value m l.first) := by
  obtain ⟨_, _, h⟩ := (l.readOnly_expectArity 2).of_bind_ok h
  obtain ⟨word, hread, h⟩ := (readOnly_read l.first).of_bind_ok h
  obtain rfl := eq_value_of_read hread
  exact eq_of_write h

theorem eq_of_arith {f : Arith} (h : (arith f l).run m = .ok () m') :
    m' = written m l.second (f.apply (value m l.second) (value m l.first)) := by
  obtain ⟨_, _, h⟩ := (l.readOnly_expectArity 2).of_bind_ok h
  obtain ⟨src, hsrc, h⟩ := (readOnly_read l.first).of_bind_ok h
  obtain ⟨dst, hdst, h⟩ := (readOnly_read l.second).of_bind_ok h
  obtain rfl := eq_value_of_read hsrc
  obtain rfl := eq_value_of_read hdst
  exact eq_of_write h

theorem eq_of_extendSign (h : (extendSign l).run m = .ok () m') :
    m' = m.set "rdx" (signWord (m.get "rax")) := by
  obtain ⟨_, _, h⟩ := (l.readOnly_expectArity 0).of_bind_ok h
  cases h
  rfl

/-- A division that is executed has a quotient. -/
theorem eq_of_divide (h : (divide l).run m = .ok () m') :
    value m l.first ≠ 0 ∧ ¬ (m.get "rax" = Int64.minValue ∧ value m l.first = -1) ∧
      m' = (m.set "rax" (m.get "rax" / value m l.first)).set "rdx"
        (m.get "rax" % value m l.first) := by
  obtain ⟨_, _, h⟩ := (l.readOnly_expectArity 1).of_bind_ok h
  obtain ⟨divisor, hread, h⟩ := (readOnly_read l.first).of_bind_ok h
  obtain rfl := eq_value_of_read hread
  obtain ⟨_, hget, h⟩ := readOnly_get.of_bind_ok h
  cases hget
  dsimp only at h
  split at h
  · cases h
  split at h
  · cases h
  case isFalse hzero =>
    split at h
    · cases h
    case isFalse hoverflow =>
      cases h
      exact ⟨hzero, hoverflow, rfl⟩

theorem eq_of_compareOperands (h : (compareOperands l).run m = .ok () m') :
    m' = m.compare (value m l.second) (value m l.first) := by
  obtain ⟨_, _, h⟩ := (l.readOnly_expectArity 2).of_bind_ok h
  obtain ⟨src, hsrc, h⟩ := (readOnly_read l.first).of_bind_ok h
  obtain ⟨dst, hdst, h⟩ := (readOnly_read l.second).of_bind_ok h
  obtain rfl := eq_value_of_read hsrc
  obtain rfl := eq_value_of_read hdst
  cases h
  rfl

theorem eq_of_setByte {c : Condition} (h : (setByte c l).run m = .ok () m') :
    m' = written m l.first (m.test c) := by
  obtain ⟨_, _, h⟩ := (l.readOnly_expectArity 1).of_bind_ok h
  obtain ⟨_, hget, h⟩ := readOnly_get.of_bind_ok h
  cases hget
  exact eq_of_write h

theorem eq_of_extendByte (h : (extendByte l).run m = .ok () m') :
    m' = written m l.second (value m l.first) := by
  obtain ⟨_, _, h⟩ := (l.readOnly_expectArity 2).of_bind_ok h
  split at h
  · cases h
  · obtain ⟨word, hread, h⟩ := (readOnly_read l.first).of_bind_ok h
    obtain rfl := eq_value_of_read hread
    exact eq_of_write h

theorem eq_of_ret (h : (ret l).run m = .ok () m') : m' = { m with returned := true } := by
  obtain ⟨_, _, h⟩ := (l.readOnly_expectArity 0).of_bind_ok h
  cases h
  rfl

end X86

namespace AArch64

/-- The word that an operand stands for. -/
def value (m : Machine) (a : Operand) : Int64 :=
  a.imm.getD (m.get a.reg)

theorem eq_reg_of_registerName {a : Operand} {name : String}
    (h : (registerName a).run m = .ok name m') : name = a.reg := by
  unfold registerName at h
  split at h
  · cases h
    rfl
  · cases h

theorem eq_value_of_read {a : Operand} {word : Int64} (h : (read a).run m = .ok word m') :
    word = value m a := by
  obtain ⟨name, hname, h⟩ := (readOnly_registerName a).of_bind_ok h
  obtain ⟨_, hget, h⟩ := readOnly_get.of_bind_ok h
  cases hget
  cases h
  unfold registerName at hname
  split at hname
  case isTrue hplain =>
    cases hname
    simp_all [value, Operand.isPlainRegister]
  case isFalse => cases hname

theorem eq_of_move (h : (move l).run m = .ok () m') :
    m' = m.set l.first.reg (value m l.second) := by
  obtain ⟨_, _, h⟩ := (l.readOnly_expectArity 2).of_bind_ok h
  obtain ⟨dst, hdst, h⟩ := (readOnly_registerName l.first).of_bind_ok h
  obtain rfl := eq_reg_of_registerName hdst
  split at h
  · obtain ⟨word, hread, h⟩ := (readOnly_read l.second).of_bind_ok h
    obtain rfl := eq_value_of_read hread
    cases h
    rfl
  case h_2 word himm =>
    split at h
    · cases h
      rw [value, himm]
      rfl
    · cases h

theorem eq_of_moveKeep (h : (moveKeep l).run m = .ok () m') :
    m' = m.set l.first.reg
      (replaceSlice (m.get l.first.reg) (value m l.second) l.third.lsl.toNat) := by
  obtain ⟨_, _, h⟩ := (l.readOnly_expectArity 3).of_bind_ok h
  obtain ⟨dst, hdst, h⟩ := (readOnly_registerName l.first).of_bind_ok h
  obtain rfl := eq_reg_of_registerName hdst
  split at h
  · cases h
  case h_2 word himm =>
    have hword : value m l.second = word := by
      rw [value, (Option.filter_eq_some_iff.mp himm).1]
      rfl
    dsimp only at h
    split at h
    · cases h
      rw [hword]
    · cases h

theorem eq_of_store (h : (store l).run m = .ok () m') : m' = m.push (value m l.first) := by
  obtain ⟨_, _, h⟩ := (l.readOnly_expectArity 2).of_bind_ok h
  dsimp only at h
  split at h
  · obtain ⟨word, hread, h⟩ := (readOnly_read l.first).of_bind_ok h
    obtain rfl := eq_value_of_read hread
    cases h
    rfl
  · cases h

theorem exists_of_load (h : (load l).run m = .ok () m') :
    ∃ top below, m.stack = top :: below ∧
      m' = ({ m with stack := below } : Machine).set l.first.reg top := by
  obtain ⟨_, _, h⟩ := (l.readOnly_expectArity 2).of_bind_ok h
  dsimp only at h
  split at h
  · obtain ⟨dst, hdst, h⟩ := (readOnly_registerName l.first).of_bind_ok h
    obtain rfl := eq_reg_of_registerName hdst
    obtain ⟨top, m₁, hpop, h⟩ := run_bind_eq_ok_iff.mp h
    obtain ⟨below, hstack, rfl⟩ := exists_of_popTop hpop
    cases h
    exact ⟨top, below, hstack, rfl⟩
  · cases h

theorem eq_of_arith {f : Arith} (h : (arith f l).run m = .ok () m') :
    m' = m.set l.first.reg (f.apply (value m l.second) (value m l.third)) := by
  obtain ⟨_, _, h⟩ := (l.readOnly_expectArity 3).of_bind_ok h
  obtain ⟨dst, hdst, h⟩ := (readOnly_registerName l.first).of_bind_ok h
  obtain ⟨a, ha, h⟩ := (readOnly_read l.second).of_bind_ok h
  obtain ⟨b, hb, h⟩ := (readOnly_read l.third).of_bind_ok h
  obtain rfl := eq_reg_of_registerName hdst
  obtain rfl := eq_value_of_read ha
  obtain rfl := eq_value_of_read hb
  cases h
  rfl

theorem eq_of_compareOperands (h : (compareOperands l).run m = .ok () m') :
    m' = m.compare (value m l.first) (value m l.second) := by
  obtain ⟨_, _, h⟩ := (l.readOnly_expectArity 2).of_bind_ok h
  obtain ⟨a, ha, h⟩ := (readOnly_read l.first).of_bind_ok h
  obtain ⟨b, hb, h⟩ := (readOnly_read l.second).of_bind_ok h
  obtain rfl := eq_value_of_read ha
  obtain rfl := eq_value_of_read hb
  cases h
  rfl

theorem exists_of_setCondition (h : (setCondition l).run m = .ok () m') :
    ∃ c, Condition.ofName? l.second.reg = some c ∧ m' = m.set l.first.reg (m.test c) := by
  obtain ⟨_, _, h⟩ := (l.readOnly_expectArity 2).of_bind_ok h
  obtain ⟨dst, hdst, h⟩ := (readOnly_registerName l.first).of_bind_ok h
  obtain rfl := eq_reg_of_registerName hdst
  split at h
  case h_1 c hc =>
    cases h
    exact ⟨c, hc, rfl⟩
  case h_2 => cases h

theorem eq_of_ret (h : (ret l).run m = .ok () m') : m' = { m with returned := true } := by
  obtain ⟨_, _, h⟩ := (l.readOnly_expectArity 0).of_bind_ok h
  cases h
  rfl

end AArch64

end ArithAsm
