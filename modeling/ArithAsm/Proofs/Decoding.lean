import ArithAsm.Asm.Listing
import ArithAsm.Proofs.Lines
import ArithAsm.Proofs.Result
import Mathlib.Data.List.Forall2

/-!
A decoder for the instructions of a listing. It takes a text apart from the
left, and every step hands on the text it did not use. The instructions that
are written in the syntax of their architecture decode to themselves.
-/

namespace ArithAsm

namespace Decoder

/-- What follows a given beginning. -/
def skip? (beginning t : Text) : Option Text :=
  if beginning <+: t then some (t.drop beginning.length) else none

/-- The longest run of bytes of one class at the front, if there is one. -/
def run? (p : UInt8 → Bool) (t : Text) : Option (Text × Text) :=
  let run := t.takeWhile p
  if run = [] then none else some (run, t.drop run.length)

/-- Mnemonics and registers are made of small letters and digits. -/
def isNameByte (b : UInt8) : Bool :=
  (97 ≤ b && b ≤ 122) || (48 ≤ b && b ≤ 57)

def asciiString (t : Text) : String :=
  String.ofList (t.ascii.map (·.char))

def name? (t : Text) : Option (String × Text) :=
  (run? isNameByte t).map fun (name, t) => (asciiString name, t)

def integer? (t : Text) : Option (Int × Text) :=
  match skip? "-" t with
  | some t => (run? Decimal.isDigit t).map fun (digits, t) => (-(Decimal.value digits : Int), t)
  | none => (run? Decimal.isDigit t).map fun (digits, t) => ((Decimal.value digits : Int), t)

end Decoder

open Decoder

/-- The base of an address, after its offset. -/
def X86.address? (offset : Int) (t : Text) : Option (Operand × Text) := do
  let t ← skip? "(%" t
  let (reg, t) ← name? t
  let t ← skip? ")" t
  return ({ reg, offset, deref := true }, t)

def X86.operand? (t : Text) : Option (Operand × Text) :=
  match skip? "$" t with
  | some t => (integer? t).map fun (n, t) => (.immediate (.ofInt n), t)
  | none =>
      match skip? "%" t with
      | some t => (name? t).map fun (reg, t) => (.register reg, t)
      | none =>
          match integer? t with
          | some (offset, t) => address? offset t
          | none => address? 0 t

/-- The end of an address that has its offset inside the brackets. -/
def AArch64.closing? (reg : String) (offset : Int) (t : Text) : Option (Operand × Text) :=
  match skip? "]!" t with
  | some t => some ({ reg, offset, deref := true, preIndex := true }, t)
  | none => (skip? "]" t).map fun t => ({ reg, offset, deref := true }, t)

/-- An address, after its opening bracket. A number that follows the closing
bracket belongs to the address. -/
def AArch64.address? (t : Text) : Option (Operand × Text) := do
  let (reg, t) ← name? t
  match skip? "], #" t with
  | some t =>
      let (offset, t) ← integer? t
      return ({ reg, offset, deref := true, postIndex := true }, t)
  | none =>
      match skip? ", #" t with
      | some t =>
          let (offset, t) ← integer? t
          closing? reg offset t
      | none =>
          let t ← skip? "]" t
          return ({ reg, deref := true }, t)

def AArch64.operand? (t : Text) : Option (Operand × Text) :=
  match skip? "#" t with
  | some t => (integer? t).map fun (n, t) => (.immediate (.ofInt n), t)
  | none =>
      match skip? "[" t with
      | some t => address? t
      | none => do
          let (name, t) ← name? t
          match skip? " #" t with
          | some t =>
              if name = "lsl" then (integer? t).map fun (bits, t) => (.shift bits, t) else none
          | none => return (.register name, t)

namespace Decoder

def operand? (arch : Arch) (t : Text) : Option (Operand × Text) :=
  match arch with
  | .x86_64 => X86.operand? t
  | .aarch64 | .unknown => AArch64.operand? t

/-- Up to `n` operands with commas between them, and nothing after them. -/
def operands? (arch : Arch) : Nat → Text → Option (List Operand)
  | 0, _ => none
  | n + 1, t => do
      let (a, t) ← operand? arch t
      if t = [] then return [a]
      else
        let t ← skip? ", " t
        let rest ← operands? arch n t
        return a :: rest

def ofOperands? (op : String) : List Operand → Option Line
  | [] => some (.instr0 op)
  | [a] => some (.instr1 op a)
  | [a, b] => some (.instr2 op a b)
  | [a, b, c] => some (.instr3 op a b c)
  | _ => none

/-- An instruction: two spaces, the mnemonic and up to three operands. -/
def line? (arch : Arch) (t : Text) : Option Line := do
  let t ← skip? "  " t
  let (op, t) ← name? t
  if t = [] then ofOperands? op []
  else
    let t ← skip? " " t
    let operands ← operands? arch 3 t
    ofOperands? op operands

section Parts

variable {p : UInt8 → Bool} {s u rest : Text}

@[simp] theorem skip?_append (s t : Text) : skip? s (s ++ t) = some t := by
  simp [skip?]

theorem skip?_append_append (s s' t : Text) : skip? (s ++ s') (s ++ t) = skip? s' t := by
  simp [skip?, List.prefix_append_right_inj, List.drop_length_add_append]

theorem skip?_of_not_prefix (hs : ¬ s <+: u) (hu : ¬ u <+: s) (t : Text) :
    skip? s (u ++ t) = none := by
  rw [skip?, if_neg]
  intro h
  rcases List.prefix_or_prefix_of_prefix h (List.prefix_append u t) with h | h
  · exact hs h
  · exact hu h

/-- The text does not go on with a byte of the class. -/
def Stops (p : UInt8 → Bool) (t : Text) : Prop :=
  t.head?.any p = false

instance (p : UInt8 → Bool) (t : Text) : Decidable (Stops p t) :=
  inferInstanceAs (Decidable (_ = false))

theorem Stops.append (hs : Stops p s) (hne : s ≠ []) (t : Text) : Stops p (s ++ t) := by
  obtain ⟨b, s, rfl⟩ := List.exists_cons_of_ne_nil hne
  exact hs

theorem run?_append (hne : u ≠ []) (hu : ∀ b ∈ u, p b = true) (h : Stops p rest) :
    run? p (u ++ rest) = some (u, rest) := by
  have hrest : rest.takeWhile p = [] := by
    cases rest with
    | nil => rfl
    | cons b rest =>
        have hb : p b = false := h
        simp [hb]
  have htake : (u ++ rest).takeWhile p = u := by
    rw [List.takeWhile_append_of_pos hu, hrest, List.append_nil]
  simp [run?, htake, hne]

theorem run?_of_stops (h : Stops p rest) : run? p rest = none := by
  cases rest with
  | nil => rfl
  | cons b rest =>
      have hb : p b = false := h
      simp [run?, hb]

theorem skip?_run (hs : s ≠ []) (h : Stops p s) (hne : u ≠ []) (hu : ∀ b ∈ u, p b = true)
    (t : Text) : skip? s (u ++ t) = none := by
  obtain ⟨c, s, rfl⟩ := List.exists_cons_of_ne_nil hs
  obtain ⟨b, u, rfl⟩ := List.exists_cons_of_ne_nil hne
  have hcb : c ≠ b := by
    rintro rfl
    have hfalse : p c = false := h
    rw [hu c List.mem_cons_self] at hfalse
    cases hfalse
  simp [skip?, hcb]

end Parts

/-- A name of a mnemonic or a register. -/
def IsName (name : String) : Prop :=
  Text.ofString name ≠ [] ∧ (Text.ofString name).all isNameByte = true

instance (name : String) : Decidable (IsName name) :=
  inferInstanceAs (Decidable (_ ∧ _))

theorem IsName.isNameByte {name : String} (h : IsName name) {b : UInt8}
    (hb : b ∈ Text.ofString name) : isNameByte b = true :=
  List.all_eq_true.mp h.2 b hb

theorem asciiString_ofString {s : String} (h : ∀ b ∈ Text.ofString s, b < 0x80) :
    asciiString (Text.ofString s) = s := by
  have hchars : ∀ cs : List Char, (∀ b ∈ cs.flatMap Text.ofChar, b < 0x80) →
      (Text.ascii (cs.flatMap Text.ofChar)).map (·.char) = cs := by
    intro cs hcs
    induction cs with
    | nil => rfl
    | cons c cs ih =>
        simp only [List.flatMap_cons, List.forall_mem_append] at hcs
        rcases Text.ofChar_cases c with ⟨hascii, _⟩ | ⟨_, hwide⟩
        · rw [List.flatMap_cons, Text.ascii_append, List.map_append, ih hcs.2,
            Text.ascii_ofChar hascii, List.map_singleton, List.singleton_append]
        · have hne : Text.ofChar c ≠ [] := by
            rw [← List.length_pos_iff, Text.ofChar, String.length_utf8EncodeChar]
            exact c.utf8Size_pos
          obtain ⟨b, hmem⟩ := List.exists_mem_of_ne_nil _ hne
          exact absurd (hcs.1 b hmem) (UInt8.not_lt.mpr (hwide b hmem))
  rw [asciiString, show Text.ofString s = s.toList.flatMap Text.ofChar from rfl,
    hchars s.toList h, String.ofList_toList]

theorem isNameByte_bounds {b : UInt8} (h : isNameByte b = true) :
    Text.newline < b ∧ b < 0x80 := by
  simp only [isNameByte, Bool.or_eq_true, Bool.and_eq_true, decide_eq_true_eq] at h
  rcases h with h | h
  · exact ⟨UInt8.lt_of_lt_of_le (by decide) h.1, UInt8.lt_of_le_of_lt h.2 (by decide)⟩
  · exact ⟨UInt8.lt_of_lt_of_le (by decide) h.1, UInt8.lt_of_le_of_lt h.2 (by decide)⟩

theorem IsName.ne_empty {name : String} (h : IsName name) : name ≠ "" := by
  rintro rfl
  exact h.1 rfl

theorem IsName.oneLine {name : String} (h : IsName name) : (Text.ofString name).OneLine :=
  Text.oneLine_of_lt fun _ hb => (isNameByte_bounds (h.isNameByte hb)).1

theorem name?_append {name : String} (hname : IsName name) {rest : Text}
    (h : Stops isNameByte rest) : name? (name ++ rest) = some (name, rest) := by
  have hascii := asciiString_ofString fun _ hb => (isNameByte_bounds (hname.isNameByte hb)).2
  simp only [name?, run?_append hname.1 (fun _ => hname.isNameByte) h, Option.map_some, hascii]

theorem integer?_append (n : Int) {rest : Text} (h : Stops Decimal.isDigit rest) :
    integer? (Decimal.ofInt n ++ rest) = some (n, rest) := by
  have hdigits : ∀ b ∈ Decimal.ofNat n.natAbs, Decimal.isDigit b = true :=
    fun b hb => Decimal.isDigit_of_mem_ofNat hb
  have hrun := run?_append (Decimal.ofNat_ne_nil n.natAbs) hdigits h
  by_cases hneg : n < 0
  · have hsign : Decimal.ofInt n = Text.ofString "-" ++ Decimal.ofNat n.natAbs := by
      rw [Decimal.ofInt, if_pos hneg]
      rfl
    simp only [integer?, hsign, List.append_assoc, skip?_append, hrun, Option.map_some,
      Decimal.value_ofNat, Option.some.injEq, Prod.mk.injEq, and_true]
    omega
  · have hskip : skip? "-" (Decimal.ofNat n.natAbs ++ rest) = none :=
      skip?_run (by decide) (by decide) (Decimal.ofNat_ne_nil _) hdigits rest
    simp only [integer?, Decimal.ofInt, if_neg hneg, hskip, hrun, Option.map_some,
      Decimal.value_ofNat, Option.some.injEq, Prod.mk.injEq, and_true]
    omega

/-- A text that neither a sign nor a digit begins is not found at a number. -/
theorem skip?_ofInt {s : Text} (hs : s ≠ []) (h : Stops (fun b => b = 45 || Decimal.isDigit b) s)
    (n : Int) (t : Text) : skip? s (Decimal.ofInt n ++ t) = none := by
  have hdigits : ∀ b ∈ Decimal.ofNat n.natAbs, (b = 45 || Decimal.isDigit b) = true := by
    intro b hb
    simp [Decimal.isDigit_of_mem_ofNat hb]
  unfold Decimal.ofInt
  split
  · exact skip?_run hs h (by simp) (by simpa using hdigits) t
  · exact skip?_run hs h (Decimal.ofNat_ne_nil _) hdigits t

end Decoder

namespace Listing

/-- How an operand is written on an architecture. An address in brackets that
has no number with it is left out: a number after it would be taken for its
offset. -/
inductive OperandSyntax : Arch → Operand → Text → Prop where
  | x86Register {reg : String} (hreg : IsName reg) :
      OperandSyntax .x86_64 (.register reg) ("%" ++ Text.ofString reg)
  | x86Immediate (n : Int64) :
      OperandSyntax .x86_64 (.immediate n) ("$" ++ Decimal.ofInt n.toInt)
  | x86Address {reg : String} (hreg : IsName reg) :
      OperandSyntax .x86_64 { reg, deref := true } ("(%" ++ Text.ofString reg ++ ")")
  | x86Offset {reg : String} (hreg : IsName reg) {offset : Int} (hoffset : offset ≠ 0) :
      OperandSyntax .x86_64 { reg, offset, deref := true }
        (Decimal.ofInt offset ++ "(%" ++ Text.ofString reg ++ ")")
  | armRegister {reg : String} (hreg : IsName reg) :
      OperandSyntax .aarch64 (.register reg) reg
  | armImmediate (n : Int64) :
      OperandSyntax .aarch64 (.immediate n) ("#" ++ Decimal.ofInt n.toInt)
  | armShift {bits : Int} (hbits : bits ≠ 0) :
      OperandSyntax .aarch64 (.shift bits) ("lsl #" ++ Decimal.ofInt bits)
  | armOffset {reg : String} (hreg : IsName reg) {offset : Int} (hoffset : offset ≠ 0) :
      OperandSyntax .aarch64 { reg, offset, deref := true }
        ("[" ++ Text.ofString reg ++ ", #" ++ Decimal.ofInt offset ++ "]")
  | armPreIndex {reg : String} (hreg : IsName reg) (offset : Int) :
      OperandSyntax .aarch64 { reg, offset, deref := true, preIndex := true }
        ("[" ++ Text.ofString reg ++ ", #" ++ Decimal.ofInt offset ++ "]!")
  | armPostIndex {reg : String} (hreg : IsName reg) (offset : Int) :
      OperandSyntax .aarch64 { reg, offset, deref := true, postIndex := true }
        ("[" ++ Text.ofString reg ++ "], #" ++ Decimal.ofInt offset)

section Operands

variable {a : Operand} {text rest : Text}

theorem OperandSyntax.x86_operandText (h : OperandSyntax .x86_64 a text) :
    X86.operandText a = .ok text := by
  cases h with
  | x86Register hreg => simp [X86.operandText, Operand.register, hreg.ne_empty]
  | x86Immediate n => simp [X86.operandText, Operand.immediate]
  | x86Address hreg => simp [X86.operandText, hreg.ne_empty]
  | x86Offset hreg hoffset => simp [X86.operandText, hreg.ne_empty, hoffset]

theorem OperandSyntax.arm_operandText (h : OperandSyntax .aarch64 a text) :
    AArch64.operandText a = .ok text := by
  cases h with
  | armRegister hreg => simp [AArch64.operandText, Operand.register, hreg.ne_empty]
  | armImmediate n => simp [AArch64.operandText, Operand.immediate]
  | armShift hbits => simp [AArch64.operandText, Operand.shift, hbits]
  | armOffset hreg hoffset => simp [AArch64.operandText, hreg.ne_empty, hoffset]
  | armPreIndex hreg offset => simp [AArch64.operandText, hreg.ne_empty]
  | armPostIndex hreg offset => simp [AArch64.operandText, hreg.ne_empty]

theorem OperandSyntax.operandText_eq {t : Target} (h : OperandSyntax t.arch a text) :
    operandText t a = .ok text := by
  cases t with
  | x86_64Linux => exact h.x86_operandText
  | aarch64Linux | aarch64Darwin => exact h.arm_operandText

/-- Nothing or a comma comes after an operand. -/
def EndsOperand (rest : Text) : Prop :=
  ∀ b ∈ rest.head?, b = 44

theorem EndsOperand.stops (h : EndsOperand rest) {p : UInt8 → Bool} (hp : p 44 = false) :
    Stops p rest := by
  cases rest with
  | nil => rfl
  | cons b rest =>
      rw [Stops, List.head?_cons, Option.any_some, h b rfl, hp]

theorem x86_address?_append {reg : String} (hreg : IsName reg) (offset : Int) (rest : Text) :
    X86.address? offset ("(%" ++ (Text.ofString reg ++ (")" ++ rest))) =
      some ({ reg, offset, deref := true }, rest) := by
  have hstops : Stops isNameByte (")" ++ rest) := .append (by decide) (by decide) rest
  simp only [X86.address?, skip?_append, name?_append hreg hstops, Option.bind_eq_bind,
    Option.bind_some, Option.pure_def]

theorem integer?_open (t : Text) : integer? ("(%" ++ t) = none := by
  have hskip : skip? "-" ("(%" ++ t) = none := skip?_of_not_prefix (by decide) (by decide) t
  have hstops : Stops Decimal.isDigit ("(%" ++ t) := .append (by decide) (by decide) t
  simp only [integer?, hskip, run?_of_stops hstops, Option.map_none]

theorem OperandSyntax.x86_operand? (h : OperandSyntax .x86_64 a text)
    (hrest : EndsOperand rest) : X86.operand? (text ++ rest) = some (a, rest) := by
  cases h with
  | x86Register hreg =>
      have hskip : ∀ t, skip? "$" ("%" ++ t) = none := skip?_of_not_prefix (by decide) (by decide)
      have hname := name?_append hreg (hrest.stops (by decide))
      simp only [X86.operand?, List.append_assoc, hskip, skip?_append, hname, Option.map_some]
  | x86Immediate n =>
      have hn := integer?_append n.toInt (hrest.stops (by decide))
      simp only [X86.operand?, List.append_assoc, skip?_append, hn, Option.map_some,
        Int64.ofInt_toInt]
  | x86Address hreg =>
      have hdollar : ∀ t, skip? "$" ("(%" ++ t) = none :=
        skip?_of_not_prefix (by decide) (by decide)
      have hpercent : ∀ t, skip? "%" ("(%" ++ t) = none :=
        skip?_of_not_prefix (by decide) (by decide)
      simp only [X86.operand?, List.append_assoc, hdollar, hpercent, integer?_open,
        x86_address?_append hreg]
  | @x86Offset reg hreg offset hoffset =>
      have hstops : ∀ t, Stops Decimal.isDigit ("(%" ++ t) := .append (by decide) (by decide)
      have hdollar : ∀ t, skip? "$" (Decimal.ofInt offset ++ t) = none :=
        skip?_ofInt (by decide) (by decide) offset
      have hpercent : ∀ t, skip? "%" (Decimal.ofInt offset ++ t) = none :=
        skip?_ofInt (by decide) (by decide) offset
      simp only [X86.operand?, List.append_assoc, hdollar, hpercent,
        integer?_append offset (hstops _), x86_address?_append hreg]

theorem arm_address?_inside {reg : String} (hreg : IsName reg) (offset : Int)
    (hrest : Stops Decimal.isDigit rest) :
    AArch64.address? (reg ++ (", #" ++ (Decimal.ofInt offset ++ rest))) =
      AArch64.closing? reg offset rest := by
  have hname : ∀ t, name? (reg ++ (", #" ++ t)) = some (reg, ", #" ++ t) :=
    fun t => name?_append hreg (.append (by decide) (by decide) t)
  have hskip : ∀ t, skip? "], #" (", #" ++ t) = none :=
    skip?_of_not_prefix (by decide) (by decide)
  simp only [AArch64.address?, hname, hskip, skip?_append, integer?_append offset hrest,
    Option.bind_eq_bind, Option.bind_some]

theorem arm_address?_after {reg : String} (hreg : IsName reg) (offset : Int)
    (hrest : Stops Decimal.isDigit rest) :
    AArch64.address? (reg ++ ("], #" ++ (Decimal.ofInt offset ++ rest))) =
      some ({ reg, offset, deref := true, postIndex := true }, rest) := by
  have hname : ∀ t, name? (reg ++ ("], #" ++ t)) = some (reg, "], #" ++ t) :=
    fun t => name?_append hreg (.append (by decide) (by decide) t)
  simp only [AArch64.address?, hname, skip?_append, integer?_append offset hrest,
    Option.bind_eq_bind, Option.bind_some, Option.pure_def]

theorem EndsOperand.skip?_eq_none {s : Text} (h : EndsOperand rest) (hne : s ≠ [])
    (hs : s.head? ≠ some 44) : skip? s rest = none := by
  obtain ⟨c, s, rfl⟩ := List.exists_cons_of_ne_nil hne
  rw [skip?, if_neg]
  rintro ⟨t, rfl⟩
  exact hs (congrArg some (h c rfl))

theorem OperandSyntax.arm_operand? (h : OperandSyntax .aarch64 a text)
    (hrest : EndsOperand rest) : AArch64.operand? (text ++ rest) = some (a, rest) := by
  have hdigit : Stops Decimal.isDigit rest := hrest.stops (by decide)
  have hopen : ∀ t, AArch64.operand? ("[" ++ t) = AArch64.address? t := by
    intro t
    have hskip : skip? "#" ("[" ++ t) = none := skip?_of_not_prefix (by decide) (by decide) t
    simp only [AArch64.operand?, hskip, skip?_append]
  cases h with
  | @armRegister reg hreg =>
      have hhash : skip? "#" (reg ++ rest) = none :=
        skip?_run (by decide) (by decide) hreg.1 (fun _ => hreg.isNameByte) rest
      have hbracket : skip? "[" (reg ++ rest) = none :=
        skip?_run (by decide) (by decide) hreg.1 (fun _ => hreg.isNameByte) rest
      have hname := name?_append hreg (hrest.stops (by decide))
      have hshift : skip? " #" rest = none := hrest.skip?_eq_none (by decide) (by decide)
      simp only [AArch64.operand?, hhash, hbracket, hname, hshift, Option.bind_eq_bind,
        Option.bind_some, Option.pure_def]
  | armImmediate n =>
      simp only [AArch64.operand?, List.append_assoc, skip?_append, integer?_append _ hdigit,
        Option.map_some, Int64.ofInt_toInt]
  | @armShift bits hbits =>
      have hhash : ∀ t, skip? "#" ("lsl #" ++ t) = none :=
        skip?_of_not_prefix (by decide) (by decide)
      have hbracket : ∀ t, skip? "[" ("lsl #" ++ t) = none :=
        skip?_of_not_prefix (by decide) (by decide)
      -- up to the space this could be a register
      have hlsl : IsName "lsl" := by decide
      have hstops : ∀ t, Stops isNameByte (" #" ++ t) := .append (by decide) (by decide)
      have hname : ∀ t, name? ("lsl #" ++ t) = some ("lsl", " #" ++ t) :=
        fun t => name?_append hlsl (hstops t)
      simp only [AArch64.operand?, List.append_assoc, hhash, hbracket, hname, skip?_append,
        integer?_append _ hdigit, Option.bind_eq_bind, Option.bind_some, Option.map_some, if_true]
  | @armOffset reg hreg offset hoffset =>
      have hstops : Stops Decimal.isDigit ("]" ++ rest) := .append (by decide) (by decide) rest
      -- what follows the bracket begins with a comma if at all, so not with the mark of a
      -- kept offset
      have hbang : skip? "]!" ("]" ++ rest) = none :=
        (skip?_append_append "]" "!" rest).trans (hrest.skip?_eq_none (by decide) (by decide))
      simp only [List.append_assoc, hopen, arm_address?_inside hreg offset hstops,
        AArch64.closing?, hbang, skip?_append, Option.map_some]
  | @armPreIndex reg hreg offset =>
      have hstops : Stops Decimal.isDigit ("]!" ++ rest) := .append (by decide) (by decide) rest
      simp only [List.append_assoc, hopen, arm_address?_inside hreg offset hstops,
        AArch64.closing?, skip?_append]
  | @armPostIndex reg hreg offset =>
      simp only [List.append_assoc, hopen, arm_address?_after hreg offset hdigit]

/-- A written operand decodes to itself, and nothing after it is used. -/
theorem OperandSyntax.operand?_eq {arch : Arch} (h : OperandSyntax arch a text)
    (hrest : EndsOperand rest) : operand? arch (text ++ rest) = some (a, rest) := by
  cases arch with
  | x86_64 => exact h.x86_operand? hrest
  | aarch64 => exact h.arm_operand? hrest
  | unknown => cases h

theorem OperandSyntax.oneLine {arch : Arch} (h : OperandSyntax arch a text) : text.OneLine := by
  cases h with
  | x86Register hreg => exact .append (by decide) hreg.oneLine
  | x86Immediate n => exact .append (by decide) (Decimal.oneLine_ofInt _)
  | x86Address hreg => exact .append (.append (by decide) hreg.oneLine) (by decide)
  | x86Offset hreg _ =>
      exact .append (.append (.append (Decimal.oneLine_ofInt _) (by decide)) hreg.oneLine)
        (by decide)
  | armRegister hreg => exact hreg.oneLine
  | armImmediate n => exact .append (by decide) (Decimal.oneLine_ofInt _)
  | armShift _ => exact .append (by decide) (Decimal.oneLine_ofInt _)
  | armOffset hreg _ | armPreIndex hreg _ =>
      exact .append (.append (.append (.append (by decide) hreg.oneLine) (by decide))
        (Decimal.oneLine_ofInt _)) (by decide)
  | armPostIndex hreg _ =>
      exact .append (.append (.append (by decide) hreg.oneLine) (by decide))
        (Decimal.oneLine_ofInt _)

end Operands

section Lines

variable {arch : Arch}

/-- The operands of an instruction, as they follow its mnemonic. -/
def operandsText (texts : List Text) : Text :=
  if texts = [] then [] else " " ++ Text.joinWith ", " texts

/-- How an instruction is written on an architecture. -/
inductive LineSyntax (arch : Arch) : Line → Text → Prop where
  | intro {op : String} {operands : List Operand} {texts : List Text} {l : Line}
      (hop : IsName op) (hoperands : List.Forall₂ (OperandSyntax arch) operands texts)
      (hline : ofOperands? op operands = some l) :
      LineSyntax arch l ("  " ++ Text.ofString op ++ operandsText texts)

theorem LineSyntax.instr0 {op : String} (hop : IsName op) :
    LineSyntax arch (.instr0 op) ("  " ++ Text.ofString op ++ operandsText []) :=
  .intro hop .nil rfl

theorem LineSyntax.instr1 {op : String} (hop : IsName op) {a : Operand} {s : Text}
    (ha : OperandSyntax arch a s) :
    LineSyntax arch (.instr1 op a) ("  " ++ Text.ofString op ++ operandsText [s]) :=
  .intro hop (.cons ha .nil) rfl

theorem LineSyntax.instr2 {op : String} (hop : IsName op) {a b : Operand} {s s' : Text}
    (ha : OperandSyntax arch a s) (hb : OperandSyntax arch b s') :
    LineSyntax arch (.instr2 op a b) ("  " ++ Text.ofString op ++ operandsText [s, s']) :=
  .intro hop (.cons ha (.cons hb .nil)) rfl

theorem LineSyntax.instr3 {op : String} (hop : IsName op) {a b c : Operand} {s s' s'' : Text}
    (ha : OperandSyntax arch a s) (hb : OperandSyntax arch b s') (hc : OperandSyntax arch c s'') :
    LineSyntax arch (.instr3 op a b c) ("  " ++ Text.ofString op ++ operandsText [s, s', s'']) :=
  .intro hop (.cons ha (.cons hb (.cons hc .nil))) rfl

theorem ofOperands?_fields {op : String} {operands : List Operand} {l : Line}
    (h : ofOperands? op operands = some l) :
    l.op = op ∧ l.label = "" ∧ l.comment = "" ∧ l.operands? = some operands ∧
      operands.length ≤ 3 := by
  unfold ofOperands? at h
  split at h
  case h_5 => cases h
  all_goals
    obtain rfl := Option.some.inj h
    exact ⟨rfl, rfl, rfl, rfl, by simp⟩

theorem operandList_eq {t : Target} {operands : List Operand} {texts : List Text}
    (h : List.Forall₂ (OperandSyntax t.arch) operands texts) :
    operandList t operands = .ok (operandsText texts) := by
  have htexts := Result.mapM_eq_ok (h.imp fun _ _ hsyntax => hsyntax.operandText_eq)
  rw [operandList, htexts]
  cases texts <;> rfl

theorem LineSyntax.lineText_eq {t : Target} {l : Line} {text : Text}
    (h : LineSyntax t.arch l text) : lineText t l = .ok (text ++ "\n") := by
  obtain @⟨op, operands, texts, _, hop, hoperands, hline⟩ := h
  obtain ⟨hl, hlabel, hcomment, hfields, _⟩ := ofOperands?_fields hline
  simp [lineText, instruction, comment, hl, hlabel, hcomment, hfields, hop.ne_empty,
    operandList_eq hoperands]

theorem operands?_joinWith {operands : List Operand} {texts : List Text}
    (h : List.Forall₂ (OperandSyntax arch) operands texts) (hne : operands ≠ []) {n : Nat}
    (hn : operands.length ≤ n) : operands? arch n (Text.joinWith ", " texts) = some operands := by
  -- the bound falls by one with each operand, so it has to be general in the induction
  induction h generalizing n with
  | nil => exact absurd rfl hne
  | @cons a text operands texts ha h ih =>
      cases n with
      | zero => cases hn
      | succ n =>
          cases h with
          | nil =>
              have hoperand : operand? arch text = some (a, []) := by
                simpa using ha.operand?_eq (by simp [EndsOperand] : EndsOperand [])
              simp [operands?, Text.joinWith, hoperand]
          | @cons b text' operands texts hb h =>
              have hends : ∀ t, EndsOperand (", " ++ t) := by
                intro t c hc
                exact (Option.some.inj hc).symm
              have hrest := ih (by simp) (Nat.le_of_succ_le_succ hn)
              have hcomma : ∀ t, (", " : Text) ++ t ≠ [] := by
                intro t
                exact List.cons_ne_nil _ _
              simp only [operands?, Text.joinWith, List.append_assoc, ha.operand?_eq (hends _),
                Option.bind_eq_bind, Option.bind_some, hcomma, if_false, skip?_append, hrest,
                Option.pure_def]

/-- A written instruction decodes to itself. -/
theorem LineSyntax.line?_eq {l : Line} {text : Text} (h : LineSyntax arch l text) :
    line? arch text = some l := by
  obtain @⟨op, operands, texts, _, hop, hoperands, hline⟩ := h
  have hlength := (ofOperands?_fields hline).2.2.2.2
  cases hoperands with
  | nil =>
      have hname : name? op = some (op, []) := by
        simpa using name?_append hop (by simp [Stops] : Stops isNameByte [])
      simpa [line?, operandsText, hname] using hline
  | cons ha h =>
      have hoperands := operands?_joinWith (.cons ha h) (by simp) hlength
      have hspace : ∀ t, Stops isNameByte (" " ++ t) := .append (by decide) (by decide)
      have hne : ∀ t, (" " : Text) ++ t ≠ [] := by
        intro t
        exact List.cons_ne_nil _ _
      simp only [line?, operandsText, List.append_assoc, skip?_append, name?_append hop (hspace _),
        Option.bind_eq_bind, Option.bind_some, hne, if_false, reduceCtorEq, hoperands, hline]

example : line? .aarch64 "  ldr x1, [sp], #16" =
    some (.instr2 "ldr" (.register "x1")
      { reg := "sp", offset := 16, deref := true, postIndex := true }) := by
  decide

theorem LineSyntax.oneLine {l : Line} {text : Text} (h : LineSyntax arch l text) :
    text.OneLine := by
  obtain @⟨op, operands, texts, _, hop, hoperands, hline⟩ := h
  have htexts : ∀ text ∈ texts, text.OneLine := by
    clear hline
    induction hoperands with
    | nil => exact fun _ h => absurd h List.not_mem_nil
    | cons ha _ ih => exact List.forall_mem_cons.mpr ⟨ha.oneLine, ih⟩
  refine .append (.append (by decide) hop.oneLine) ?_
  unfold operandsText
  split
  · exact List.not_mem_nil
  · exact .append (by decide) (Text.oneLine_joinWith (by decide) htexts)

end Lines

end Listing

end ArithAsm
