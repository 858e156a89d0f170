import ArithAsm.Proofs.Execution
import ArithAsm.Proofs.Instructions

/-!
What a run does with the stack, whatever the program. A line pushes one word,
pops one, returns or leaves the stack alone, and its mnemonic alone tells which.
So the pushes and pops of the executed lines can be counted without executing
them, and a run that succeeds has at no point popped more than it pushed. The
lines after the return, lines without a mnemonic and other functions have no
part in such a run.
-/

namespace ArithAsm

namespace Line

def pushNames : List String :=
  ["pushq", "str"]

def popNames : List String :=
  ["popq", "ldr"]

/-- The mnemonics of the lines that change the stack or end the run. -/
def effectNames : List String :=
  pushNames ++ popNames ++ ["ret"]

def isPush (l : Line) : Bool :=
  l.op ∈ pushNames

def isPop (l : Line) : Bool :=
  l.op ∈ popNames

/-- Labels, comments and empty lines are no instructions. -/
def isInstruction (l : Line) : Bool :=
  l.op ≠ ""

def pushCount (ls : List Line) : Nat :=
  ls.countP isPush

def popCount (ls : List Line) : Nat :=
  ls.countP isPop

/-- The lines up to the first return, and the return itself. -/
def upToReturn : List Line → List Line
  | [] => []
  | l :: ls => if l.op = "ret" then [l] else l :: upToReturn ls

/-- The lines a run executes: what follows the return and what is no
instruction has no part in it. -/
def executed (ls : List Line) : List Line :=
  (upToReturn ls).filter isInstruction

@[simp] theorem pushCount_nil : pushCount [] = 0 := rfl

@[simp] theorem popCount_nil : popCount [] = 0 := rfl

theorem pushCount_cons (l : Line) (ls : List Line) :
    pushCount (l :: ls) = l.isPush.toNat + pushCount ls := by
  unfold pushCount
  cases hl : l.isPush <;> simp [hl, Nat.add_comm]

theorem popCount_cons (l : Line) (ls : List Line) :
    popCount (l :: ls) = l.isPop.toNat + popCount ls := by
  unfold popCount
  cases hl : l.isPop <;> simp [hl, Nat.add_comm]

theorem not_mem_popNames {op : String} (h : op ∈ pushNames) : op ∉ popNames := by
  have hdisjoint : ∀ op ∈ pushNames, op ∉ popNames := by decide
  exact hdisjoint op h

/-- A line without a mnemonic leaves the stack alone. -/
theorem counts_of_op_eq_empty {l : Line} (h : l.op = "") :
    l.isPush = false ∧ l.isPop = false := by
  simp [isPush, isPop, h, pushNames, popNames]

theorem upToReturn_of_empty {l : Line} (hop : l.op = "") (ls : List Line) :
    upToReturn (l :: ls) = l :: upToReturn ls := by
  have hret : l.op ≠ "ret" := hop ▸ by decide
  rw [upToReturn, if_neg hret]

theorem executed_of_empty {l : Line} (hop : l.op = "") (ls : List Line) :
    executed (l :: ls) = executed ls := by
  rw [executed, upToReturn_of_empty hop, List.filter_cons_of_neg (by simp [isInstruction, hop])]
  rfl

theorem executed_of_ret {l : Line} (hop : l.op = "ret") (ls : List Line) :
    executed (l :: ls) = [l] := by
  rw [executed, upToReturn, if_pos hop, List.filter_cons_of_pos (by simp [isInstruction, hop])]
  rfl

theorem executed_of_ne {l : Line} (hop : l.op ≠ "") (hret : l.op ≠ "ret") (ls : List Line) :
    executed (l :: ls) = l :: executed ls := by
  rw [executed, upToReturn, if_neg hret, List.filter_cons_of_pos (by simp [isInstruction, hop])]
  rfl

end Line

namespace Machine

/-- The stack and the progress of the run are as they were. -/
structure Quiet (m m' : Machine) : Prop where
  stack : m'.stack = m.stack
  returned : m'.returned = m.returned

theorem quiet_set (m : Machine) (name : String) (value : Int64) : Quiet m (m.set name value) :=
  ⟨rfl, rfl⟩

theorem quiet_compare (m : Machine) (left right : Int64) : Quiet m (m.compare left right) :=
  ⟨rfl, rfl⟩

/-- What a line with a given mnemonic does to the stack and to the progress of
the run. -/
inductive Effect (op : String) (m m' : Machine) : Prop
  | push (value : Int64) (hop : op ∈ Line.pushNames) (hquiet : Quiet (m.push value) m')
  | pop (value : Int64) (rest : List Int64) (hop : op ∈ Line.popNames)
      (hstack : m.stack = value :: rest) (hquiet : Quiet { m with stack := rest } m')
  | ret (hop : op = "ret") (hquiet : Quiet { m with returned := true } m')
  | keep (hop : op ∉ Line.effectNames) (hquiet : Quiet m m')

end Machine

namespace X86

open Machine

namespace Mnemonic

def name : Mnemonic → String
  | push => "pushq"
  | pop => "popq"
  | move => "movabsq"
  | arith .add => "addq"
  | arith .sub => "subq"
  | arith .mul => "imulq"
  | extendSign => "cqto"
  | divide => "idivq"
  | compare => "cmpq"
  | set .eq => "sete"
  | set .ne => "setne"
  | set .lt => "setl"
  | set .le => "setle"
  | set .gt => "setg"
  | set .ge => "setge"
  | extendByte => "movzbq"
  | ret => "ret"

theorem name_of_ofName? {op : String} {i : Mnemonic} (h : ofName? op = some i) : i.name = op := by
  unfold ofName? at h
  split at h <;> cases h <;> rfl

end Mnemonic

variable {m m' : Machine} {l : Line}

theorem quiet_written (m : Machine) (a : Operand) (word : Int64) : Quiet m (written m a word) := by
  unfold written
  split <;> exact quiet_set m _ _

theorem effect_of_run {i : Mnemonic} (h : (effect i l).run m = .ok () m') :
    Effect i.name m m' := by
  cases i with
  | push =>
      obtain rfl := eq_of_push h
      exact .push _ (by decide) ⟨rfl, rfl⟩
  | pop =>
      obtain ⟨top, below, hstack, rfl⟩ := exists_of_pop h
      exact .pop top below (by decide) hstack (quiet_written _ _ _)
  | ret =>
      obtain rfl := eq_of_ret h
      exact .ret rfl ⟨rfl, rfl⟩
  | move =>
      obtain rfl := eq_of_move h
      exact .keep (by decide) (quiet_written _ _ _)
  | arith f =>
      obtain rfl := eq_of_arith h
      cases f <;> exact .keep (by decide) (quiet_written _ _ _)
  | extendSign =>
      obtain rfl := eq_of_extendSign h
      exact .keep (by decide) (quiet_set _ _ _)
  | divide =>
      obtain ⟨_, _, rfl⟩ := eq_of_divide h
      exact .keep (by decide) ⟨rfl, rfl⟩
  | compare =>
      obtain rfl := eq_of_compareOperands h
      exact .keep (by decide) (quiet_compare _ _ _)
  | set c =>
      obtain rfl := eq_of_setByte h
      cases c <;> exact .keep (by decide) (quiet_written _ _ _)
  | extendByte =>
      obtain rfl := eq_of_extendByte h
      exact .keep (by decide) (quiet_written _ _ _)

end X86

namespace AArch64

open Machine

namespace Mnemonic

def name : Mnemonic → String
  | move => "mov"
  | moveKeep => "movk"
  | store => "str"
  | load => "ldr"
  | arith .add => "add"
  | arith .sub => "sub"
  | arith .mul => "mul"
  | arith .div => "sdiv"
  | compare => "cmp"
  | set => "cset"
  | ret => "ret"

theorem name_of_ofName? {op : String} {i : Mnemonic} (h : ofName? op = some i) : i.name = op := by
  unfold ofName? at h
  split at h <;> cases h <;> rfl

end Mnemonic

variable {m m' : Machine} {l : Line}

theorem effect_of_run {i : Mnemonic} (h : (effect i l).run m = .ok () m') :
    Effect i.name m m' := by
  cases i with
  | store =>
      obtain rfl := eq_of_store h
      exact .push _ (by decide) ⟨rfl, rfl⟩
  | load =>
      obtain ⟨top, below, hstack, rfl⟩ := exists_of_load h
      exact .pop top below (by decide) hstack (quiet_set _ _ _)
  | ret =>
      obtain rfl := eq_of_ret h
      exact .ret rfl ⟨rfl, rfl⟩
  | move =>
      obtain rfl := eq_of_move h
      exact .keep (by decide) (quiet_set _ _ _)
  | moveKeep =>
      obtain rfl := eq_of_moveKeep h
      exact .keep (by decide) (quiet_set _ _ _)
  | arith f =>
      obtain rfl := eq_of_arith h
      cases f <;> exact .keep (by decide) (quiet_set _ _ _)
  | compare =>
      obtain rfl := eq_of_compareOperands h
      exact .keep (by decide) (quiet_compare _ _ _)
  | set =>
      obtain ⟨c, _, rfl⟩ := exists_of_setCondition h
      exact .keep (by decide) (quiet_set _ _ _)

end AArch64

namespace Machine

open Line

variable {arch : Arch} {l : Line} {ls : List Line} {m m' : Machine}

theorem effect_of_step (h : m.step? arch l = some (.ok m')) : Effect l.op m m' := by
  obtain ⟨act, hact, h⟩ := Option.map_eq_some_iff.mp h
  have hrun := Action.outcome_eq_ok_iff.mp h
  cases arch with
  | aarch64 =>
      obtain ⟨i, hi, rfl⟩ := Option.map_eq_some_iff.mp hact
      exact AArch64.Mnemonic.name_of_ofName? hi ▸ AArch64.effect_of_run hrun
  | x86_64 | unknown =>
      obtain ⟨i, hi, rfl⟩ := Option.map_eq_some_iff.mp hact
      exact X86.Mnemonic.name_of_ofName? hi ▸ X86.effect_of_run hrun

/-- The mnemonic tells how many words a line adds or takes away. -/
theorem Effect.length_stack (h : Effect l.op m m') :
    m'.stack.length + l.isPop.toNat = m.stack.length + l.isPush.toNat := by
  cases h with
  | push value hop hquiet =>
      simp [isPush, isPop, hop, not_mem_popNames hop, hquiet.stack]
  | pop value rest hop hstack hquiet =>
      have hpush : l.op ∉ pushNames := fun h => not_mem_popNames h hop
      simp [isPush, isPop, hop, hpush, hquiet.stack, hstack]
  | ret hop hquiet => simp [isPush, isPop, hop, pushNames, popNames, hquiet.stack]
  | keep hop hquiet =>
      simp only [effectNames, List.mem_append, not_or] at hop
      simp [isPush, isPop, hop, hquiet.stack]

/-- Of the lines that are executed only a return ends the run. -/
theorem Effect.returned_iff {op : String} (h : Effect op m m') (hrunning : m.returned = false) :
    m'.returned = true ↔ op = "ret" := by
  cases h with
  | push value hop hquiet =>
      have hret : op ≠ "ret" := fun h => absurd (h ▸ hop) (by decide)
      simp [hquiet.returned, Machine.push, hrunning, hret]
  | pop value rest hop hstack hquiet =>
      have hret : op ≠ "ret" := fun h => absurd (h ▸ hop) (by decide)
      simp [hquiet.returned, hrunning, hret]
  | ret hop hquiet => simp [hquiet.returned, hop]
  | keep hop hquiet =>
      simp only [effectNames, List.mem_append, List.mem_singleton, not_or] at hop
      simp [hquiet.returned, hrunning, hop]

theorem Effect.returned_eq_false {op : String} (h : Effect op m m')
    (hrunning : m.returned = false) (hret : op ≠ "ret") : m'.returned = false := by
  rw [Bool.eq_false_iff, ne_eq, h.returned_iff hrunning]
  exact hret

theorem op_ne_empty_of_step (h : m.step? arch l = some (.ok m')) : l.op ≠ "" := by
  intro hop
  rw [step?, hop] at h
  cases arch <;> cases h

/-- Lines without a return leave a run going on. -/
theorem Executes.steps (h : Executes arch ls m m') (hret : ∀ l ∈ ls, l.op ≠ "ret")
    (hrunning : m.returned = false) : Steps arch ls m m' := by
  induction h with
  | nil m => exact .nil m
  | @cons l ls m m₁ m₂ hstep _ ih =>
      have hrunning₁ := (effect_of_step hstep).returned_eq_false hrunning (hret l List.mem_cons_self)
      exact .cons (op_ne_empty_of_step hstep) hstep hrunning₁
        (ih (fun l' hl' => hret l' (List.mem_cons_of_mem l hl')) hrunning₁)

/-- The lines are executed until one returns, which leaves the machine `m'`. -/
inductive Returns (arch : Arch) : List Line → Machine → Machine → Prop
  | skip {l : Line} {ls : List Line} {m m' : Machine} (hop : l.op = "")
      (hrest : Returns arch ls m m') : Returns arch (l :: ls) m m'
  | ret {l : Line} {m m' : Machine} (ls : List Line) (hop : l.op = "ret")
      (hstep : m.step? arch l = some (.ok m')) : Returns arch (l :: ls) m m'
  | step {l : Line} {ls : List Line} {m m₁ m' : Machine} (hop : l.op ≠ "") (hret : l.op ≠ "ret")
      (hstep : m.step? arch l = some (.ok m₁)) (hrest : Returns arch ls m₁ m') :
      Returns arch (l :: ls) m m'

theorem returns_of_runLines {index : Nat} (h : runLines arch index ls m = .ok m')
    (hrunning : m.returned = false) : Returns arch ls m m' := by
  induction ls generalizing index m with
  | nil => cases h
  | cons l ls ih =>
      rw [runLines] at h
      split at h
      case isTrue hop => exact .skip hop (ih h hrunning)
      case isFalse hop =>
        cases hstep : m.step? arch l with
        | none => simp [hstep] at h
        | some outcome =>
            cases outcome with
            | error stop => simp [hstep] at h
            | ok m₁ =>
                simp only [hstep] at h
                have hreturned := (effect_of_step hstep).returned_iff hrunning
                split at h
                case isTrue htrue =>
                  obtain rfl := Except.ok.inj h
                  exact .ret ls (hreturned.mp htrue) hstep
                case isFalse hfalse =>
                  exact .step hop (fun hret => hfalse (hreturned.mpr hret)) hstep
                    (ih h (Bool.eq_false_iff.mpr hfalse))

theorem Returns.runLines_eq (h : Returns arch ls m m') (hrunning : m.returned = false)
    (index : Nat) : runLines arch index ls m = .ok m' := by
  induction h generalizing index with
  | skip hop _ ih => rw [runLines, if_pos hop, ih hrunning]
  | @ret l m m' ls hop hstep =>
      have hne : l.op ≠ "" := hop ▸ by decide
      have hreturned := ((effect_of_step hstep).returned_iff hrunning).mpr hop
      rw [runLines, if_neg hne, hstep]
      simp only [hreturned, if_true]
  | @step l ls m m₁ m' hop hret hstep _ ih =>
      have hrunning₁ := (effect_of_step hstep).returned_eq_false hrunning hret
      rw [runLines, if_neg hop, hstep]
      simp only [hrunning₁, Bool.false_eq_true, if_false]
      exact ih hrunning₁ (index + 1)

theorem Returns.exists_ret (h : Returns arch ls m m') : ∃ l ∈ ls, l.op = "ret" := by
  induction h with
  | skip _ _ ih | step _ _ _ _ ih =>
      obtain ⟨l, hl, hop⟩ := ih
      exact ⟨l, List.mem_cons_of_mem _ hl, hop⟩
  | ret ls hop _ => exact ⟨_, List.mem_cons_self, hop⟩

/-- After every part of the executed lines there is a machine whose stack the
pushes and pops of that part account for; after all of them it is the final
one. -/
theorem Returns.exists_after (h : Returns arch ls m m') {front : List Line}
    (hfront : front <+: upToReturn ls) :
    ∃ m₁, m₁.stack.length + popCount front = m.stack.length + pushCount front ∧
      (front = upToReturn ls → m₁ = m') := by
  induction h generalizing front with
  | @skip l ls m m' hop _ ih =>
      obtain ⟨hpush, hpop⟩ := counts_of_op_eq_empty hop
      rw [upToReturn_of_empty hop] at hfront ⊢
      rcases List.prefix_cons_iff.mp hfront with rfl | ⟨rest, rfl, hrest⟩
      · exact ⟨m, rfl, nofun⟩
      · obtain ⟨m₁, hlength, hlast⟩ := ih hrest
        refine ⟨m₁, ?_, fun heq => hlast (List.cons.inj heq).2⟩
        rw [pushCount_cons, popCount_cons, hpush, hpop, Bool.toNat_false]
        omega
  | @ret l m m' ls hop hstep =>
      have hlength := (effect_of_step hstep).length_stack
      rw [upToReturn, if_pos hop] at hfront ⊢
      rcases List.prefix_cons_iff.mp hfront with rfl | ⟨rest, rfl, hrest⟩
      · exact ⟨m, rfl, nofun⟩
      · obtain rfl := List.prefix_nil.mp hrest
        refine ⟨m', ?_, fun _ => rfl⟩
        rw [pushCount_cons, popCount_cons, pushCount_nil, popCount_nil]
        omega
  | @step l ls m m₁ m' _ hret hstep _ ih =>
      have hlength := (effect_of_step hstep).length_stack
      rw [upToReturn, if_neg hret] at hfront ⊢
      rcases List.prefix_cons_iff.mp hfront with rfl | ⟨rest, rfl, hrest⟩
      · exact ⟨m, rfl, nofun⟩
      · obtain ⟨m₂, hlength₂, hlast⟩ := ih hrest
        refine ⟨m₂, ?_, fun heq => hlast (List.cons.inj heq).2⟩
        rw [pushCount_cons, popCount_cons]
        omega

theorem Returns.to_executed (h : Returns arch ls m m') : Returns arch (executed ls) m m' := by
  induction h with
  | skip hop _ ih => rwa [executed_of_empty hop]
  | ret ls hop hstep =>
      rw [executed_of_ret hop]
      exact .ret [] hop hstep
  | step hop hret hstep _ ih =>
      rw [executed_of_ne hop hret]
      exact .step hop hret hstep ih

theorem returns_of_executed (h : Returns arch (executed ls) m m') : Returns arch ls m m' := by
  induction ls generalizing m with
  | nil => exact h
  | cons l ls ih =>
      by_cases hempty : l.op = ""
      · rw [executed_of_empty hempty] at h
        exact .skip hempty (ih h)
      by_cases hret : l.op = "ret"
      · rw [executed_of_ret hret] at h
        cases h with
        | skip hop _ => exact absurd hop hempty
        | ret _ hop hstep => exact .ret ls hop hstep
        | step _ hop _ _ => exact absurd hret hop
      · rw [executed_of_ne hempty hret] at h
        cases h with
        | skip hop _ => exact absurd hop hempty
        | ret _ hop _ => exact absurd hop hret
        | step hop hret hstep hrest => exact .step hop hret hstep (ih hrest)

end Machine

namespace Program

open Machine Line Result

/-- A program answers a word if its first function `main` returns with nothing
on the stack, and the word is what it leaves in the result register. -/
theorem run_eq_ok_iff {p : Program} {v : Int64} :
    p.run = .ok v ↔ p.arch ≠ .unknown ∧ ∃ f m, p.main? = some f ∧
      Returns p.arch f.lines {} m ∧ m.stack = [] ∧ m.get (resultRegister p.arch) = v := by
  constructor
  · intro h
    unfold run at h
    split at h
    · cases h
    case isFalse harch =>
      cases hmain : p.main? with
      | none => simp [hmain] at h
      | some f =>
          simp only [hmain] at h
          obtain ⟨m, hlines, h⟩ := bind_eq_ok_iff.mp h
          split at h
          · cases h
          case isFalse hstack =>
            exact ⟨harch, f, m, rfl, returns_of_runLines hlines rfl, not_not.mp hstack,
              Except.ok.inj h⟩
  · rintro ⟨harch, f, m, hmain, hreturns, hstack, rfl⟩
    simp [run, harch, hmain, hreturns.runLines_eq rfl, hstack]

/-- A run that answers a word has never popped more than it pushed and has
popped everything when it returns. It depends on nothing but the instructions
of the first function `main` up to its first return: a program of the same
architecture with the same ones answers the same word. -/
theorem run_disciplined {p : Program} {v : Int64} (h : p.run = .ok v) :
    ∃ f, p.main? = some f ∧ (∃ ret ∈ f.lines, ret.op = "ret") ∧
      (∀ front, front <+: upToReturn f.lines → popCount front ≤ pushCount front) ∧
      popCount (upToReturn f.lines) = pushCount (upToReturn f.lines) ∧
      ∀ (q : Program) (g : Function), q.arch = p.arch → q.main? = some g →
        executed g.lines = executed f.lines → q.run = .ok v := by
  obtain ⟨harch, f, m, hmain, hreturns, hstack, hv⟩ := run_eq_ok_iff.mp h
  have hstart : ({} : Machine).stack.length = 0 := rfl
  refine ⟨f, hmain, hreturns.exists_ret, ?_, ?_, ?_⟩
  · intro front hfront
    obtain ⟨m₁, hlength, _⟩ := hreturns.exists_after hfront
    omega
  · obtain ⟨m₁, hlength, hlast⟩ := hreturns.exists_after (List.prefix_refl _)
    rw [hlast rfl, hstack, List.length_nil] at hlength
    omega
  · intro q g hq hg hexecuted
    have hreturns' : Returns p.arch g.lines {} m :=
      returns_of_executed (hexecuted ▸ hreturns.to_executed)
    exact run_eq_ok_iff.mpr ⟨hq ▸ harch, g, m, hg, hq ▸ hreturns', hstack, hq ▸ hv⟩

/-- A difference whose code is labelled and commented and goes on after the
return, between functions that are never run. -/
def annotatedDifference : Program where
  arch := .x86_64
  functions := [
    ⟨"start", [.instr0 "hlt"]⟩,
    ⟨"main", [{ label := "main" }, .instr1 "pushq" (.immediate 7), .instr1 "pushq" (.immediate 9),
      { comment := "operands" }, .instr1 "popq" X86.rdi, .instr1 "popq" X86.rax,
      .instr2 "subq" X86.rdi X86.rax, .instr0 "ret", .instr1 "popq" X86.rax]⟩,
    ⟨"main", []⟩]

def bareDifference : Program where
  arch := .x86_64
  functions := [⟨"main", [.instr1 "pushq" (.immediate 7), .instr1 "pushq" (.immediate 9),
    .instr1 "popq" X86.rdi, .instr1 "popq" X86.rax, .instr2 "subq" X86.rdi X86.rax,
    .instr0 "ret", .instr0 "ret", { label := "end" }]⟩]

theorem run_bareDifference :
    annotatedDifference.run = .ok (-2) ∧ bareDifference.run = .ok (-2) := by
  have hrun : annotatedDifference.run = .ok (-2) := rfl
  obtain ⟨f, hmain, _, _, _, hsame⟩ := run_disciplined hrun
  obtain rfl := Option.some.inj hmain
  exact ⟨hrun, hsame bareDifference _ rfl rfl rfl⟩

end Program

end ArithAsm
