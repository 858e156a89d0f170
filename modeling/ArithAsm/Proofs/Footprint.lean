import ArithAsm.Proofs.StackDiscipline

/-!
Instructions change only what they name. Every instruction has a footprint, which
can be read off its mnemonic and its operands: the registers it may change, what it
does to the stack, the comparison it leaves behind and whether it returns. All the
rest of the machine is as it was, also where the operands of a line overlap with each
other or with the registers that a division uses by itself.
-/

namespace ArithAsm

/-- A place that an instruction may write: a whole register or only its low byte. -/
inductive Place where
  | register (name : String)
  | lowByte (name : String)
  deriving DecidableEq

def Place.name : Place → String
  | register name | lowByte name => name

def upperBits (word : Int64) : BitVec 56 :=
  word.toBitVec.extractLsb' 8 56

inductive StackChange where
  | keep
  | push (word : Int64)
  | pop

/-- The two stacks are those before and after the change. -/
def StackChange.Relates : StackChange → List Int64 → List Int64 → Prop
  | keep, before, after => after = before
  | push word, before, after => after = word :: before
  | pop, before, after => ∃ top, before = top :: after

structure Footprint where
  places : List Place := []
  stack : StackChange := .keep
  /-- The operands of a comparison, if the instruction makes one. -/
  compared : Option (Int64 × Int64) := none
  returns : Bool := false

namespace Machine

variable {places : List Place} {m m₁ : Machine}

/-- Registers that are not among the places are as they were. Those of which only the
low byte is keep their upper bits. -/
structure Within (places : List Place) (m m' : Machine) : Prop where
  keeps : Keeps (places.map Place.name) m m'
  keepsUpper : ∀ reg, .register reg ∉ places →
    upperBits (m'.get reg) = upperBits (m.get reg)

theorem Within.of_registers_eq (h : m₁.registers = m.registers) : Within places m m₁ := by
  have hget : ∀ reg, m₁.get reg = m.get reg := fun reg => congrArg (·.get reg) h
  exact ⟨fun reg _ => hget reg, fun reg _ => congrArg upperBits (hget reg)⟩

theorem Within.set {name : String} (h : Within places m m₁) (hname : .register name ∈ places)
    (word : Int64) : Within places m (m₁.set name word) where
  keeps := h.keeps.set (List.mem_map_of_mem hname) word
  keepsUpper := by
    intro reg hreg
    have hne : reg ≠ name := fun heq => hreg (heq ▸ hname)
    rw [get_set_ne m₁ word hne]
    exact h.keepsUpper reg hreg

theorem Within.setLowByte {name : String} (h : Within places m m₁)
    (hname : .lowByte name ∈ places) {word : Int64}
    (hword : upperBits word = upperBits (m₁.get name)) :
    Within places m (m₁.set name word) where
  keeps := h.keeps.set (List.mem_map_of_mem hname) word
  keepsUpper := by
    intro reg hreg
    by_cases heq : reg = name
    · rw [heq, get_set_same, hword]
      exact h.keepsUpper name (heq ▸ hreg)
    · rw [get_set_ne m₁ word heq]
      exact h.keepsUpper reg hreg

end Machine

/-- Between the two machines nothing has changed that is not in the footprint. -/
structure Footprint.Covers (f : Footprint) (m m' : Machine) : Prop where
  registers : m.Within f.places m'
  stack : f.stack.Relates m.stack m'.stack
  compared : m'.compared = f.compared.getD m.compared
  returned : m'.returned = (m.returned || f.returns)

/-- A quotient that is rounded towards zero, and the remainder that goes with it. -/
structure Division (dividend divisor quotient remainder : Int) : Prop where
  sum : quotient * divisor + remainder = dividend
  sign : remainder = 0 ∨ remainder.sign = dividend.sign
  small : remainder.natAbs < divisor.natAbs

theorem division_words {a b : Int64} (hzero : b ≠ 0)
    (hoverflow : ¬ (a = Int64.minValue ∧ b = -1)) :
    Division a.toInt b.toInt (a / b).toInt (a % b).toInt := by
  have hquotient : (a / b).toInt = a.toInt.tdiv b.toInt := by
    by_cases ha : a = Int64.minValue
    · exact Int64.toInt_div_of_ne_right a b fun hb => hoverflow ⟨ha, hb⟩
    · exact Int64.toInt_div_of_ne_left a b ha
  have hdivisor : b.toInt ≠ 0 := fun h => hzero (Int64.toInt_inj.mp h)
  rw [hquotient, Int64.toInt_mod]
  refine ⟨Int.tdiv_mul_add_tmod _ _, ?_, ?_⟩
  · by_cases hdvd : b.toInt ∣ a.toInt
    · exact .inl (Int.tmod_eq_zero_of_dvd hdvd)
    · exact .inr (by rw [Int.sign_tmod, if_neg hdvd])
  · rw [Int.natAbs_tmod]
    exact Nat.mod_lt _ (Int.natAbs_pos.mpr hdivisor)

namespace X86

open Machine

/-- The register `al` is no register of its own. -/
def place (name : String) : Place :=
  if name = "al" then .lowByte "rax" else .register name

def footprint (name : String) (l : Line) (m : Machine) : Footprint :=
  match name with
  | "pushq" => { stack := .push (value m l.first) }
  | "popq" => { stack := .pop, places := [place l.first.reg] }
  | "movabsq" | "addq" | "subq" | "imulq" | "movzbq" => { places := [place l.second.reg] }
  | "sete" | "setne" | "setl" | "setle" | "setg" | "setge" => { places := [place l.first.reg] }
  | "cqto" => { places := [.register "rdx"] }
  | "idivq" => { places := [.register "rax", .register "rdx"] }
  | "cmpq" => { compared := some (value m l.second, value m l.first) }
  | "ret" => { returns := true }
  | _ => {}

theorem upperBits_merge (word byte : Int64) :
    upperBits ((word &&& ~~~0xff) ||| (byte &&& 0xff)) = upperBits word := by
  have hkept : upperBits (~~~0xff) = BitVec.allOnes 56 := by decide
  have hcleared : upperBits 0xff = 0#56 := by decide
  unfold upperBits at hkept hcleared ⊢
  rw [Int64.toBitVec_or, Int64.toBitVec_and, Int64.toBitVec_and, BitVec.extractLsb'_or,
    BitVec.extractLsb'_and, BitVec.extractLsb'_and, hkept, hcleared, BitVec.and_allOnes,
    BitVec.and_zero, BitVec.or_zero]

theorem within_written (m : Machine) (a : Operand) (word : Int64) :
    Within [place a.reg] m (written m a word) := by
  have hkept : Within [place a.reg] m m := .of_registers_eq rfl
  unfold written
  by_cases hal : a.reg = "al"
  · rw [if_pos hal]
    rw [place, if_pos hal] at hkept ⊢
    exact hkept.setLowByte List.mem_cons_self (upperBits_merge _ _)
  · rw [if_neg hal]
    rw [place, if_neg hal] at hkept ⊢
    exact hkept.set List.mem_cons_self word

theorem compared_written (m : Machine) (a : Operand) (word : Int64) :
    (written m a word).compared = m.compared := by
  unfold written
  split <;> rfl

/-- An operand that is written is all that has changed. -/
theorem covers_written (m : Machine) (a : Operand) (word : Int64) :
    Footprint.Covers { places := [place a.reg] } m (written m a word) where
  registers := within_written m a word
  stack := (quiet_written m a word).stack
  compared := compared_written m a word
  returned := by rw [(quiet_written m a word).returned, Bool.or_false]

theorem covers_of_pop {l : Line} {m m' : Machine} (h : (pop l).run m = .ok () m') :
    Footprint.Covers { stack := .pop, places := [place l.first.reg] } m m' := by
  obtain ⟨top, below, hstack, rfl⟩ := exists_of_pop h
  have hcovers := covers_written { m with stack := below } l.first top
  refine ⟨⟨hcovers.registers.keeps, hcovers.registers.keepsUpper⟩, ⟨top, ?_⟩,
    hcovers.compared, hcovers.returned⟩
  rw [hstack]
  exact congrArg (top :: ·) hcovers.stack.symm

theorem covers_of_divide {l : Line} {m m' : Machine} (h : (divide l).run m = .ok () m') :
    Footprint.Covers { places := [.register "rax", .register "rdx"] } m m' := by
  obtain ⟨_, _, rfl⟩ := eq_of_divide h
  have hkept : Within [.register "rax", .register "rdx"] m m := .of_registers_eq rfl
  have hrdx : Place.register "rdx" ∈ [.register "rax", .register "rdx"] :=
    List.mem_cons_of_mem _ List.mem_cons_self
  exact ⟨(hkept.set List.mem_cons_self _).set hrdx _, rfl, rfl, (Bool.or_false _).symm⟩

/-- What a division leaves in `rax` and `rdx`. The divisor is the one before the
division, even if it was read from one of the two. -/
theorem division_of_divide {l : Line} {m m' : Machine} (h : (divide l).run m = .ok () m') :
    Division (m.get "rax").toInt (value m l.first).toInt
      (m'.get "rax").toInt (m'.get "rdx").toInt := by
  obtain ⟨hzero, hoverflow, rfl⟩ := eq_of_divide h
  have hne : "rax" ≠ "rdx" := by decide
  rw [get_set_ne _ _ hne, get_set_same, get_set_same]
  exact division_words hzero hoverflow

theorem covers_of_run {i : Mnemonic} {l : Line} {m m' : Machine}
    (h : (effect i l).run m = .ok () m') : (footprint i.name l m).Covers m m' := by
  cases i with
  | push =>
      obtain rfl := eq_of_push h
      exact ⟨.of_registers_eq rfl, rfl, rfl, (Bool.or_false _).symm⟩
  | pop => exact covers_of_pop h
  | move =>
      obtain rfl := eq_of_move h
      exact covers_written m _ _
  | arith f =>
      obtain rfl := eq_of_arith h
      cases f <;> exact covers_written m _ _
  | extendSign =>
      obtain rfl := eq_of_extendSign h
      have hkept : Within [.register "rdx"] m m := .of_registers_eq rfl
      exact ⟨hkept.set List.mem_cons_self _, rfl, rfl, (Bool.or_false _).symm⟩
  | divide => exact covers_of_divide h
  | compare =>
      obtain rfl := eq_of_compareOperands h
      exact ⟨.of_registers_eq rfl, rfl, rfl, (Bool.or_false _).symm⟩
  | set c =>
      obtain rfl := eq_of_setByte h
      cases c <;> exact covers_written m _ _
  | extendByte =>
      obtain rfl := eq_of_extendByte h
      exact covers_written m _ _
  | ret =>
      obtain rfl := eq_of_ret h
      exact ⟨.of_registers_eq rfl, rfl, rfl, (Bool.or_true _).symm⟩

/-- `idivq` is the only name of the division. -/
theorem eq_divide_of_idivq {i : Mnemonic} (h : Mnemonic.ofName? "idivq" = some i) :
    i = .divide :=
  (Option.some.inj h).symm

end X86

namespace AArch64

open Machine

def footprint (name : String) (l : Line) (m : Machine) : Footprint :=
  match name with
  | "str" => { stack := .push (value m l.first) }
  | "ldr" => { stack := .pop, places := [.register l.first.reg] }
  | "mov" | "movk" | "add" | "sub" | "mul" | "sdiv" | "cset" =>
      { places := [.register l.first.reg] }
  | "cmp" => { compared := some (value m l.first, value m l.second) }
  | "ret" => { returns := true }
  | _ => {}

theorem covers_set (m : Machine) (name : String) (word : Int64) :
    Footprint.Covers { places := [.register name] } m (m.set name word) where
  registers := (Within.of_registers_eq rfl).set List.mem_cons_self word
  stack := rfl
  compared := rfl
  returned := (Bool.or_false _).symm

theorem covers_of_run {i : Mnemonic} {l : Line} {m m' : Machine}
    (h : (effect i l).run m = .ok () m') : (footprint i.name l m).Covers m m' := by
  cases i with
  | move =>
      obtain rfl := eq_of_move h
      exact covers_set m _ _
  | moveKeep =>
      obtain rfl := eq_of_moveKeep h
      exact covers_set m _ _
  | store =>
      obtain rfl := eq_of_store h
      exact ⟨.of_registers_eq rfl, rfl, rfl, (Bool.or_false _).symm⟩
  | load =>
      obtain ⟨top, below, hstack, rfl⟩ := exists_of_load h
      have hkept : Within [.register l.first.reg] m { m with stack := below } :=
        .of_registers_eq rfl
      exact ⟨hkept.set List.mem_cons_self _, ⟨top, hstack⟩, rfl, (Bool.or_false _).symm⟩
  | arith f =>
      obtain rfl := eq_of_arith h
      cases f <;> exact covers_set m _ _
  | compare =>
      obtain rfl := eq_of_compareOperands h
      exact ⟨.of_registers_eq rfl, rfl, rfl, (Bool.or_false _).symm⟩
  | set =>
      obtain ⟨c, _, rfl⟩ := exists_of_setCondition h
      exact covers_set m _ _
  | ret =>
      obtain rfl := eq_of_ret h
      exact ⟨.of_registers_eq rfl, rfl, rfl, (Bool.or_true _).symm⟩

end AArch64

namespace Machine

def footprint (arch : Arch) (name : String) (l : Line) (m : Machine) : Footprint :=
  match arch with
  | .aarch64 => AArch64.footprint name l m
  | .x86_64 | .unknown => X86.footprint name l m

/-- An instruction that is executed changes nothing outside its footprint: the stack
grows by the source word, loses its top or stays, only comparisons and returns have
the effects they are named for, and of the registers only the destination differs.
A division moreover leaves the quotient and the remainder of what was in `rax`. -/
theorem instruction_within_footprint {arch : Arch} {name : String} {act : Line → Action Unit}
    (hact : instruction? arch name = some act) {l : Line} {m m' : Machine}
    (h : (act l).run m = .ok () m') :
    (m.footprint arch name l).Covers m m' ∧
      (name = "idivq" → Division (m.get "rax").toInt (X86.value m l.first).toInt
        (m'.get "rax").toInt (m'.get "rdx").toInt) := by
  cases arch with
  | aarch64 =>
      obtain ⟨i, hi, rfl⟩ := Option.map_eq_some_iff.mp hact
      obtain rfl := AArch64.Mnemonic.name_of_ofName? hi
      refine ⟨AArch64.covers_of_run h, ?_⟩
      intro hname
      rw [hname] at hi
      cases hi
  | x86_64 | unknown =>
      obtain ⟨i, hi, rfl⟩ := Option.map_eq_some_iff.mp hact
      obtain rfl := X86.Mnemonic.name_of_ofName? hi
      refine ⟨X86.covers_of_run h, ?_⟩
      intro hname
      rw [hname] at hi
      obtain rfl := X86.eq_divide_of_idivq hi
      exact X86.division_of_divide h

/-- About to divide `rax` by its own low byte. -/
def beforeByteDivision : Machine where
  registers := ⟨[("rax", -249), ("rdx", -1), ("al", 5)]⟩
  stack := [3]

/-- The low byte of `rax` is seven. As a divisor it is read before `rax` is written,
and subtracted from itself it leaves the upper bits of `rax` alone. -/
theorem footprint_beforeByteDivision :
    (∃ m', (X86.divide (.instr1 "idivq" X86.al)).run beforeByteDivision = .ok () m' ∧
      Division (-249) 7 (m'.get "rax").toInt (m'.get "rdx").toInt ∧ m'.get "al" = 5) ∧
    ∃ m', (X86.arith .sub (.instr2 "subq" X86.al X86.al)).run beforeByteDivision = .ok () m' ∧
      upperBits (m'.get "rax") = upperBits (-249) ∧ m'.stack = [3] := by
  have hdivide : instruction? .x86_64 "idivq" = some X86.divide := rfl
  have hsub : instruction? .x86_64 "subq" = some (X86.arith .sub) := rfl
  constructor
  · refine ⟨_, rfl, ?_⟩
    obtain ⟨hcovers, hdivision⟩ := instruction_within_footprint hdivide
      (l := .instr1 "idivq" X86.al) (m := beforeByteDivision) rfl
    exact ⟨hdivision rfl, hcovers.registers.keeps "al" (by decide)⟩
  · refine ⟨_, rfl, ?_⟩
    obtain ⟨hcovers, _⟩ := instruction_within_footprint hsub
      (l := .instr2 "subq" X86.al X86.al) (m := beforeByteDivision) rfl
    exact ⟨hcovers.registers.keepsUpper "rax" (by decide), hcovers.stack⟩

end Machine

end ArithAsm
