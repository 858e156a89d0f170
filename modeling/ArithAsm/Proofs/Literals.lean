import ArithAsm.Asm.AArch64
import ArithAsm.Proofs.StackDiscipline

/-!
Words put into a register. An instruction carries sixteen bits at most, so a word is
put together from slices: the lowest replaces all that the register held, and each of
the others goes above the bits that are there. A slice of zeros needs no instruction,
since the bits above are zero already.
-/

namespace ArithAsm.AArch64

open Machine

/-- The bits of a word below the given one. -/
def lowBits (value : UInt64) (bit : Nat) : UInt64 :=
  UInt64.ofNat (value.toNat % 1 <<< bit)

theorem lowBits_word (value : UInt64) : lowBits value 64 = value := by
  have hlt : value.toNat < 1 <<< 64 := value.toNat_lt
  rw [lowBits, Nat.mod_eq_of_lt hlt, UInt64.ofNat_toNat]

theorem getLsbD_toBitVec_ofNat {n i : Nat} (hi : i < 64) :
    (UInt64.ofNat n).toBitVec.getLsbD i = n.testBit i := by
  rw [UInt64.toBitVec_ofNat', BitVec.getLsbD_ofNat, decide_eq_true hi, Bool.true_and]

/-- A slice that is put above the bits below it extends them by sixteen. -/
theorem replaceSlice_lowBits (value : UInt64) {bit : Nat}
    (hbit : bit = 16 ∨ bit = 32 ∨ bit = 48) :
    replaceSlice (lowBits value bit).toInt64 (Int64.ofNat (slice16 value bit)) bit =
      (lowBits value (bit + 16)).toInt64 := by
  unfold replaceSlice lowBits slice16
  simp only [Nat.one_shiftLeft]
  refine congrArg UInt64.toInt64 (UInt64.toBitVec_inj.mp (BitVec.eq_of_getLsbD_eq ?_))
  intro i hi
  have hshift : (UInt64.ofNat bit).toBitVec % 64 = BitVec.ofNat 64 bit := by
    rcases hbit with rfl | rfl | rfl <;> rfl
  have hamount : (BitVec.ofNat 64 bit).toNat = bit := by
    rcases hbit with rfl | rfl | rfl <;> rfl
  have hmask : (65535 : UInt64) = UInt64.ofNat (2 ^ 16 - 1) := rfl
  have hslice : 65536 = 2 ^ 16 := rfl
  have hlow : i - bit < 64 := by omega
  rw [UInt64.toBitVec_or, UInt64.toBitVec_and, UInt64.toBitVec_not, UInt64.toBitVec_shiftLeft,
    UInt64.toBitVec_shiftLeft, hshift, hmask, hslice]
  simp only [BitVec.getLsbD_or, BitVec.getLsbD_and, BitVec.getLsbD_not,
    UInt64.toUInt64_toInt64, Int64.toUInt64_ofNat', BitVec.shiftLeft_eq',
    BitVec.getLsbD_shiftLeft, hamount, getLsbD_toBitVec_ofNat hi, getLsbD_toBitVec_ofNat hlow,
    Nat.testBit_mod_two_pow, Nat.testBit_two_pow_sub_one, Nat.testBit_shiftRight, hi]
  -- below the slice the old bits stay, inside it the new ones count, above it all are zero
  by_cases hbelow : i < bit
  · have habove : i < bit + 16 := by omega
    simp [hbelow, habove]
  · by_cases hinside : i < bit + 16
    · have hindex : bit + (i - bit) = i := by omega
      have hwidth : i - bit < 16 := by omega
      simp [hbelow, hinside, hindex, hwidth]
    · have hwidth : ¬ i - bit < 16 := by omega
      simp [hbelow, hinside, hwidth]

/-- A slice of zeros adds nothing. -/
theorem lowBits_of_slice_zero {value : UInt64} {bit : Nat} (h : slice16 value bit = 0) :
    lowBits value (bit + 16) = lowBits value bit := by
  have hsplit : value.toNat % 2 ^ (bit + 16) =
      value.toNat % 2 ^ bit + 2 ^ bit * (value.toNat / 2 ^ bit % 2 ^ 16) := by
    rw [Nat.pow_add, Nat.mod_mul]
  have hzero : value.toNat / 2 ^ bit % 2 ^ 16 = 0 := by
    rw [← Nat.shiftRight_eq_div_pow]
    exact h
  unfold lowBits
  simp only [Nat.one_shiftLeft]
  rw [hsplit, hzero, Nat.mul_zero, Nat.add_zero]

theorem slice16_lt (value : UInt64) (bit : Nat) : slice16 value bit < 65536 :=
  Nat.mod_lt _ (by decide)

theorem toInt_chunk (value : UInt64) (bit : Nat) :
    (Int64.ofNat (slice16 value bit)).toInt = slice16 value bit := by
  have hlt := slice16_lt value bit
  exact Int64.toInt_ofNat_of_lt (by omega)

theorem fits16_chunk (value : UInt64) (bit : Nat) :
    fits16 (Int64.ofNat (slice16 value bit)) = true := by
  have hlt := slice16_lt value bit
  simp only [fits16, toInt_chunk, Bool.and_eq_true, decide_eq_true_eq]
  omega

theorem registerName_register {reg : String} (hreg : reg ≠ "") (hsp : reg ≠ "sp") :
    registerName (.register reg) = pure reg := by
  simp [registerName, Operand.register, Operand.isPlainRegister, hreg, hsp]

theorem step_mov {reg : String} (hreg : reg ≠ "") (hsp : reg ≠ "sp") (value : UInt64)
    (m : Machine) :
    m.step? .aarch64 (.instr2 "mov" (.register reg) (chunk value 0)) =
      some (.ok (m.set reg (lowBits value 16).toInt64)) := by
  have hlow : (lowBits value 16).toInt64 = Int64.ofNat (slice16 value 0) := rfl
  have hrun : (move (.instr2 "mov" (.register reg) (chunk value 0))).run m =
      .ok () (m.set reg (lowBits value 16).toInt64) := by
    simp [Line.instr2, move, Line.expectArity, registerName_register hreg hsp, chunk,
      Operand.immediate, fits16_chunk, hlow]
  exact congrArg some (Action.outcome_eq_ok_iff.mpr hrun)

theorem step_movk {reg : String} (hreg : reg ≠ "") (hsp : reg ≠ "sp") (value : UInt64)
    {bit : Nat} (hbit : bit = 16 ∨ bit = 32 ∨ bit = 48) (m : Machine) :
    m.step? .aarch64 (.instr3 "movk" (.register reg) (chunk value bit) (.shift bit)) =
      some (.ok (m.set reg
        (replaceSlice (m.get reg) (Int64.ofNat (slice16 value bit)) bit))) := by
  have hshift : (bit : Int) = 16 ∨ (bit : Int) = 32 ∨ (bit : Int) = 48 := by omega
  have hfits : (some (Int64.ofNat (slice16 value bit))).filter fits16 =
      some (Int64.ofNat (slice16 value bit)) := by
    simp only [Option.filter, fits16_chunk, if_true]
  have hrun : (moveKeep (.instr3 "movk" (.register reg) (chunk value bit) (.shift bit))).run m =
      .ok () (m.set reg (replaceSlice (m.get reg) (Int64.ofNat (slice16 value bit)) bit)) := by
    simp [Line.instr3, moveKeep, Line.expectArity, registerName_register hreg hsp, chunk,
      Operand.immediate, Operand.shift, hfits, hshift]
  exact congrArg some (Action.outcome_eq_ok_iff.mpr hrun)

/-- The lines that set the slices of a word at the given bits, without those
that are zero. -/
def keptSlices (reg : String) (value : UInt64) (bits : List Nat) : List Line :=
  (bits.filter (slice16 value · ≠ 0)).map fun bit =>
    .instr3 "movk" (.register reg) (chunk value bit) (.shift bit)

/-- One slice is set, or skipped because it is zero: in both cases the register
holds sixteen bits more of the word than before. -/
theorem keptSlice_executes {reg : String} (hreg : reg ≠ "") (hsp : reg ≠ "sp") (value : UInt64)
    {bit : Nat} (hbit : bit = 16 ∨ bit = 32 ∨ bit = 48) (m : Machine) :
    Executes .aarch64 (keptSlices reg value [bit]) (m.set reg (lowBits value bit).toInt64)
      (m.set reg (lowBits value (bit + 16)).toInt64) := by
  by_cases hzero : slice16 value bit = 0
  · have hlines : keptSlices reg value [bit] = [] := by simp [keptSlices, hzero]
    rw [hlines, lowBits_of_slice_zero hzero]
    exact .nil _
  · have hlines : keptSlices reg value [bit] =
        [.instr3 "movk" (.register reg) (chunk value bit) (.shift bit)] := by
      simp [keptSlices, hzero]
    have hstep := step_movk hreg hsp value hbit (m.set reg (lowBits value bit).toInt64)
    rw [get_set_same, replaceSlice_lowBits value hbit, set_set] at hstep
    rw [hlines]
    exact .cons hstep (.nil _)

/-- A literal is put together from its slices, whatever the register held. -/
theorem loadImmediate_executes {reg : String} (hreg : reg ≠ "") (hsp : reg ≠ "sp")
    (value : UInt64) (m : Machine) :
    Executes .aarch64 (loadImmediate reg value) m (m.set reg value.toInt64) := by
  have hlines : loadImmediate reg value =
      [.instr2 "mov" (.register reg) (chunk value 0)] ++ (keptSlices reg value [16] ++
        (keptSlices reg value [32] ++ keptSlices reg value [48])) := by
    simp only [keptSlices, ← List.map_append, ← List.filter_append]
    rfl
  have hmove : Executes .aarch64 [.instr2 "mov" (.register reg) (chunk value 0)] m
      (m.set reg (lowBits value 16).toInt64) :=
    .cons (step_mov hreg hsp value m) (.nil _)
  have h16 : Executes .aarch64 (keptSlices reg value [16]) (m.set reg (lowBits value 16).toInt64)
      (m.set reg (lowBits value 32).toInt64) :=
    keptSlice_executes hreg hsp value (.inl rfl) m
  have h32 : Executes .aarch64 (keptSlices reg value [32]) (m.set reg (lowBits value 32).toInt64)
      (m.set reg (lowBits value 48).toInt64) :=
    keptSlice_executes hreg hsp value (.inr (.inl rfl)) m
  have h48 : Executes .aarch64 (keptSlices reg value [48]) (m.set reg (lowBits value 48).toInt64)
      (m.set reg (lowBits value 64).toInt64) :=
    keptSlice_executes hreg hsp value (.inr (.inr rfl)) m
  rw [lowBits_word] at h48
  rw [hlines]
  exact hmove.append (h16.append (h32.append h48))

/-- Loading a word neither uses the stack nor returns. -/
theorem loadImmediate_effectless (reg : String) (value : UInt64) :
    ∀ l ∈ loadImmediate reg value, l.op ∉ Line.effectNames := by
  have hmove : "mov" ∉ Line.effectNames := by decide
  have hkeep : "movk" ∉ Line.effectNames := by decide
  intro l hl
  rcases List.mem_cons.mp hl with rfl | hl
  · exact hmove
  · obtain ⟨bit, _, rfl⟩ := List.mem_map.mp hl
    exact hkeep

/-- No immediate is wider than a slice, and none that sets an upper slice is zero. -/
theorem immediate_of_mem_loadImmediate {reg : String} {value : UInt64} {l : Line}
    (hl : l ∈ loadImmediate reg value) :
    ∃ n : Int64, l.second = .immediate n ∧ n.toInt ≤ 65535 ∧
      (l.op = "mov" ∧ 0 ≤ n.toInt ∨ l.op = "movk" ∧ 1 ≤ n.toInt) := by
  rcases List.mem_cons.mp hl with rfl | hl
  · have hint := toInt_chunk value 0
    have hlt := slice16_lt value 0
    exact ⟨Int64.ofNat (slice16 value 0), rfl, by omega, .inl ⟨rfl, by omega⟩⟩
  · obtain ⟨bit, hbit, rfl⟩ := List.mem_map.mp hl
    have hnonzero : slice16 value bit ≠ 0 := by simpa using (List.mem_filter.mp hbit).2
    have hint := toInt_chunk value bit
    have hlt := slice16_lt value bit
    exact ⟨Int64.ofNat (slice16 value bit), rfl, by omega, .inr ⟨rfl, by omega⟩⟩

/-- Loading a word puts it into the register, whatever that held before and whatever
the machine has come to, and changes nothing else. The lines are a move of the lowest
slice and then, from low to high, one line for each of the other slices that is not
zero. -/
theorem loadImmediate_exact {reg : String} (hreg : reg ≠ "") (hsp : reg ≠ "sp") (value : UInt64) :
    (∀ m, Executes .aarch64 (loadImmediate reg value) m (m.set reg value.toInt64)) ∧
    (∃ bits : List Nat, bits.Pairwise (· < ·) ∧
      (∀ bit, bit ∈ bits ↔ (bit = 16 ∨ bit = 32 ∨ bit = 48) ∧ slice16 value bit ≠ 0) ∧
      loadImmediate reg value =
        .instr2 "mov" (.register reg) (.immediate (Int64.ofNat (slice16 value 0))) ::
          bits.map fun bit => .instr3 "movk" (.register reg)
            (.immediate (Int64.ofNat (slice16 value bit))) (.shift bit)) ∧
    ∀ l ∈ loadImmediate reg value, ∃ n : Int64, l.second = .immediate n ∧ n.toInt ≤ 65535 ∧
      (l.op = "mov" ∧ 0 ≤ n.toInt ∨ l.op = "movk" ∧ 1 ≤ n.toInt) := by
  refine ⟨loadImmediate_executes hreg hsp value, ?_, fun l => immediate_of_mem_loadImmediate⟩
  refine ⟨[16, 32, 48].filter (slice16 value · ≠ 0), ?_, ?_, rfl⟩
  · have hbits : [16, 32, 48].Pairwise (· < ·) := by decide
    exact hbits.filter _
  · intro bit
    simp

/-- A register that holds something else, in a machine that has returned. -/
def afterReturn : Machine where
  registers := ⟨[("x9", -1), ("x0", 3)]⟩
  stack := [5]
  compared := (1, 2)
  returned := true

/-- The lowest slice and the third one are zero, and the sign bit is set. -/
theorem loadImmediate_afterReturn :
    Executes .aarch64 (loadImmediate "x9" 0x8000000000010000) afterReturn
      { afterReturn with registers := ⟨[("x9", -9223372036854710272), ("x0", 3)]⟩ } ∧
    (loadImmediate "x9" 0x8000000000010000).length = 3 := by
  obtain ⟨hexecutes, _⟩ :=
    loadImmediate_exact (by decide : "x9" ≠ "") (by decide) 0x8000000000010000
  exact ⟨hexecutes afterReturn, by decide⟩

end ArithAsm.AArch64
