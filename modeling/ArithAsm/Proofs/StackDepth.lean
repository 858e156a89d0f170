import ArithAsm.Proofs.Distinct
import ArithAsm.Proofs.StackDiscipline

/-!
How deep the stack gets. A code generator counts the words on the stack while
it emits lines, without executing them; on every run of the program that count
is the length of the real stack, line by line. It is never negative, and the
shape of the expression bounds it: code comes in reverse Polish order, so the
right operand is computed on top of the left one.
-/

namespace ArithAsm

/-- The most words the stack holds at once while an expression is computed. -/
def Expr.need : Expr → Nat
  | .number _ _ => 1
  | .binary _ _ l r => max (need l) (1 + need r)

theorem Expr.one_le_need (e : Expr) : 1 ≤ e.need := by
  induction e with
  | number loc n => exact Nat.le_refl 1
  | binary loc op l r ihl _ => exact Nat.le_trans ihl (Nat.le_max_left _ _)

/-- The count that goes with the line is what its mnemonic does to the stack. -/
def Emitted.Counted (x : Emitted) : Prop :=
  x.change = (x.line.isPush.toNat : Int) - x.line.isPop.toNat

namespace Emitted

open Line

theorem counted_push {l : Line} (h : l.op ∈ pushNames) : (push l).Counted := by
  simp [Counted, push, isPush, isPop, h, not_mem_popNames h]

theorem counted_pop {l : Line} (h : l.op ∈ popNames) : (pop l).Counted := by
  have hpush : l.op ∉ pushNames := fun hpush => not_mem_popNames hpush h
  simp [Counted, pop, isPush, isPop, h, hpush]

theorem counted_plain {l : Line} (hpush : l.op ∉ pushNames) (hpop : l.op ∉ popNames) :
    (plain l).Counted := by
  simp [Counted, plain, isPush, isPop, hpush, hpop]

end Emitted

namespace Code

open Line

theorem lines_cons (x : Emitted) (c : Code) : lines (x :: c) = x.line :: lines c := rfl

/-- The count of words on the stack after the first `k` lines. -/
def height (c : Code) (k : Nat) : Int :=
  depth (c.take k)

@[simp] theorem height_zero (c : Code) : height c 0 = 0 := rfl

theorem height_succ (x : Emitted) (c : Code) (k : Nat) :
    height (x :: c) (k + 1) = x.change + height c k :=
  depth_cons x (c.take k)

theorem height_append (c d : Code) (k : Nat) :
    height (c ++ d) k = height c k + height d (k - c.length) := by
  rw [height, List.take_append, depth_append]
  rfl

theorem height_append_of_le {c : Code} {k : Nat} (h : k ≤ c.length) (d : Code) :
    height (c ++ d) k = height c k := by
  rw [height_append, Nat.sub_eq_zero_of_le h, height_zero, Int.add_zero]

theorem height_of_length_le {c : Code} {k : Nat} (h : c.length ≤ k) : height c k = depth c := by
  rw [height, List.take_of_length_le h]

/-- The count stays between two bounds from the first line to the last. -/
def Between (low high : Int) (c : Code) : Prop :=
  ∀ k, low ≤ height c k ∧ height c k ≤ high

theorem Between.mono {low high low' high' : Int} {c : Code} (h : Between low high c)
    (hlow : low' ≤ low) (hhigh : high ≤ high') : Between low' high' c := by
  intro k
  obtain ⟨hl, hh⟩ := h k
  exact ⟨Int.le_trans hlow hl, Int.le_trans hh hhigh⟩

/-- What follows starts at the count that the code before it has reached. -/
theorem Between.append {low high : Int} {c d : Code} (hc : Between low high c)
    (hd : Between (low - depth c) (high - depth c) d) : Between low high (c ++ d) := by
  intro k
  rcases Nat.le_total k c.length with hk | hk
  · rw [height_append_of_le hk]
    exact hc k
  · have hbounds := hd (k - c.length)
    rw [height_append, height_of_length_le hk]
    omega

theorem between_nil {low high : Int} (hlow : low ≤ 0) (hhigh : 0 ≤ high) :
    Between low high [] := by
  intro k
  rw [height, List.take_nil, depth_nil]
  exact ⟨hlow, hhigh⟩

theorem Between.cons {low high : Int} {x : Emitted} {c : Code} (hlow : low ≤ 0)
    (hhigh : 0 ≤ high) (h : Between (low - x.change) (high - x.change) c) :
    Between low high (x :: c) := by
  intro k
  cases k with
  | zero => exact ⟨hlow, hhigh⟩
  | succ k =>
      have hbounds := h k
      rw [height_succ]
      omega

theorem between_map_plain (ls : List Line) : Between 0 0 (ls.map .plain) := by
  intro k
  rw [height, ← List.map_take, depth_map_plain]
  exact ⟨Int.le_refl 0, Int.le_refl 0⟩

/-- The count follows from the mnemonics. -/
theorem depth_eq_counts {c : Code} (h : ∀ x ∈ c, x.Counted) :
    depth c = (pushCount c.lines : Int) - popCount c.lines := by
  induction c with
  | nil => rfl
  | cons x c ih =>
      have hx : x.change = _ := h x List.mem_cons_self
      have hc := ih fun y hy => h y (List.mem_cons_of_mem x hy)
      rw [depth_cons, lines_cons, pushCount_cons, popCount_cons]
      omega

namespace Polish

variable {e : Expr} {c : Code}

/-- A block that loads or computes a word adds it at the end. -/
theorem between_plain_push (ls : List Line) (push : Line) :
    Between 0 1 (ls.map .plain ++ [.push push]) := by
  apply Between.append ((between_map_plain ls).mono (by omega) (by omega))
  rw [depth_map_plain]
  apply Between.cons (by omega) (by omega)
  rw [Emitted.change_push]
  exact between_nil (by omega) (by omega)

theorem between_operation (right left push : Line) (ops : List Line) :
    Between (-2) 0 ([.pop right, .pop left] ++ ops.map .plain ++ [.push push]) := by
  rw [List.append_assoc]
  apply Between.cons (by omega) (by omega)
  rw [Emitted.change_pop]
  apply Between.cons (by omega) (by omega)
  rw [Emitted.change_pop]
  exact (between_plain_push ops push).mono (by omega) (by omega)

theorem between (h : Polish e c) : Between 0 e.need c := by
  induction h with
  | number loc n _ _ => exact between_plain_push _ _
  | @binary l r c d right left push ops loc op hl hr _ _ _ _ ihl ihr =>
      have hneed : Expr.need (.binary loc op l r) = max l.need (1 + r.need) := rfl
      have hright := r.one_le_need
      have hoperands : Between 0 (Expr.need (.binary loc op l r)) (c ++ d) := by
        apply Between.append (ihl.mono (Int.le_refl 0) (by omega))
        rw [hl.depth_eq_one]
        exact ihr.mono (by omega) (by omega)
      apply hoperands.append
      rw [depth_append, hl.depth_eq_one, hr.depth_eq_one]
      exact (between_operation right left push ops).mono (by omega) (by omega)

/-- The bound is reached: by the left operand, or by the right one on top of
the word that the left one has left. -/
theorem exists_height_eq (h : Polish e c) : ∃ k ≤ c.length, height c k = e.need := by
  induction h with
  | @number loads push loc n _ _ =>
      refine ⟨_, Nat.le_refl _, ?_⟩
      rw [height_of_length_le (Nat.le_refl _), depth_append, depth_map_plain]
      rfl
  | @binary l r c d right left push ops loc op hl hr _ _ _ _ ihl ihr =>
      have hneed : Expr.need (.binary loc op l r) = max l.need (1 + r.need) := rfl
      rw [hneed, List.append_assoc]
      rcases Nat.le_total (1 + r.need) l.need with hle | hle
      · obtain ⟨k, hk, hheight⟩ := ihl
        refine ⟨k, ?_, ?_⟩
        · rw [List.length_append]
          omega
        · rw [height_append_of_le hk, hheight, Nat.max_eq_left hle]
      · obtain ⟨k, hk, hheight⟩ := ihr
        refine ⟨c.length + k, ?_, ?_⟩
        · rw [List.length_append, List.length_append]
          omega
        · rw [height_append, height_of_length_le (Nat.le_add_right _ _), hl.depth_eq_one,
            Nat.add_sub_cancel_left, height_append_of_le hk, hheight, Nat.max_eq_right hle]
          omega

/-- Every line is counted as its mnemonic says, and none returns. -/
theorem forall_counted (h : Polish e c) : ∀ x ∈ c, x.Counted ∧ x.line.op ≠ "ret" := by
  have hplain {ls : List Line} (hls : ∀ l ∈ ls, l.op ∉ effectNames) :
      ∀ x ∈ ls.map Emitted.plain, x.Counted ∧ x.line.op ≠ "ret" := by
    intro x hx
    obtain ⟨l, hl, rfl⟩ := List.mem_map.mp hx
    have hop := hls l hl
    simp only [effectNames, List.mem_append, List.mem_singleton, not_or] at hop
    exact ⟨Emitted.counted_plain hop.1.1 hop.1.2, hop.2⟩
  have hpush {l : Line} (hl : l.op ∈ pushNames) :
      (Emitted.push l).Counted ∧ l.op ≠ "ret" :=
    ⟨Emitted.counted_push hl, fun hret => absurd (hret ▸ hl) (by decide)⟩
  have hpop {l : Line} (hl : l.op ∈ popNames) : (Emitted.pop l).Counted ∧ l.op ≠ "ret" :=
    ⟨Emitted.counted_pop hl, fun hret => absurd (hret ▸ hl) (by decide)⟩
  induction h with
  | number loc n hloads hlast =>
      intro x hx
      rcases List.mem_append.mp hx with hx | hx
      · exact hplain hloads x hx
      · obtain rfl := List.mem_singleton.mp hx
        exact hpush hlast
  | binary loc op _ _ hright hleft hops hlast ihl ihr =>
      intro x hx
      simp only [List.mem_append, List.mem_cons, List.not_mem_nil, or_false] at hx
      rcases hx with (hx | hx) | ((rfl | rfl) | hx) | rfl
      · exact ihl x hx
      · exact ihr x hx
      · exact hpop hright
      · exact hpop hleft
      · exact hplain hops x hx
      · exact hpush hlast

end Polish

end Code

namespace Machine

open Line

variable {arch : Arch} {l : Line} {ls : List Line} {m m' : Machine}

/-- The machine after a line, if the line can be executed. A line without a
mnemonic changes nothing. -/
def after? (arch : Arch) (l : Line) (m : Machine) : Option Machine :=
  if l.op = "" then some m
  else
    match m.step? arch l with
    | some (.ok m') => some m'
    | _ => none

/-- The machines a run goes through, one for each line that it executes. -/
def trace (arch : Arch) : List Line → Machine → List Machine
  | [], _ => []
  | l :: ls, m =>
      match after? arch l m with
      | none => []
      | some m' => m' :: if m'.returned then [] else trace arch ls m'

theorem after?_of_step (hop : l.op ≠ "") (hstep : m.step? arch l = some (.ok m')) :
    after? arch l m = some m' := by
  rw [after?, if_neg hop, hstep]

theorem after?_cases (h : after? arch l m = some m') :
    (l.op = "" ∧ m' = m) ∨ (l.op ≠ "" ∧ m.step? arch l = some (.ok m')) := by
  unfold after? at h
  split at h
  case isTrue hop => exact .inl ⟨hop, (Option.some.inj h).symm⟩
  case isFalse hop =>
    split at h
    case h_1 hstep =>
      obtain rfl := Option.some.inj h
      exact .inr ⟨hop, hstep⟩
    case h_2 => cases h

theorem length_stack_of_after? (h : after? arch l m = some m') :
    m'.stack.length + l.isPop.toNat = m.stack.length + l.isPush.toNat := by
  rcases after?_cases h with ⟨hop, rfl⟩ | ⟨_, hstep⟩
  · obtain ⟨hpush, hpop⟩ := counts_of_op_eq_empty hop
    rw [hpush, hpop]
  · exact (effect_of_step hstep).length_stack

theorem trace_of_after? (h : after? arch l m = some m') (ls : List Line) :
    trace arch (l :: ls) m = m' :: if m'.returned then [] else trace arch ls m' := by
  rw [trace, h]

/-- A machine of the trace is the one after the first line, or comes later. -/
theorem trace_cons_cases {k : Nat} (h : (trace arch (l :: ls) m)[k]? = some m') :
    ∃ m₁, after? arch l m = some m₁ ∧ ((k = 0 ∧ m' = m₁) ∨
      ∃ j, k = j + 1 ∧ m₁.returned = false ∧ (trace arch ls m₁)[j]? = some m') := by
  cases hafter : after? arch l m with
  | none => simp [trace, hafter] at h
  | some m₁ =>
      rw [trace_of_after? hafter] at h
      refine ⟨m₁, rfl, ?_⟩
      cases k with
      | zero => exact .inl ⟨rfl, (Option.some.inj h).symm⟩
      | succ j =>
          rw [List.getElem?_cons_succ] at h
          split at h
          · cases h
          case isFalse hreturned => exact .inr ⟨j, rfl, Bool.eq_false_iff.mpr hreturned, h⟩

/-- Line by line, the words on the stack are those that are counted. -/
theorem length_stack_of_trace {c : Code} (hc : ∀ x ∈ c, x.Counted) {k : Nat}
    (h : (trace arch c.lines m)[k]? = some m') :
    (m'.stack.length : Int) = m.stack.length + c.height (k + 1) := by
  induction c generalizing m k with
  | nil => cases h
  | cons x c ih =>
      have hx : x.change = _ := hc x List.mem_cons_self
      rw [Code.lines_cons] at h
      obtain ⟨m₁, hafter, hm'⟩ := trace_cons_cases h
      have hlength := length_stack_of_after? hafter
      rw [Code.height_succ]
      rcases hm' with ⟨rfl, rfl⟩ | ⟨j, rfl, _, hj⟩
      · rw [Code.height_zero]
        omega
      · have hrest := ih (fun y hy => hc y (List.mem_cons_of_mem x hy)) hj
        omega

theorem runLines_of_after? (h : after? arch l m = some m') (hrunning : m.returned = false)
    (start : Nat) (ls : List Line) :
    runLines arch start (l :: ls) m =
      if m'.returned then .ok m' else runLines arch (start + 1) ls m' := by
  rcases after?_cases h with ⟨hop, rfl⟩ | ⟨hop, hstep⟩
  · rw [runLines, if_pos hop, hrunning, if_neg Bool.false_ne_true]
  · rw [runLines, if_neg hop, hstep]

/-- The run goes on from every machine of its trace with the lines that are
left, unless that machine has returned. -/
theorem runLines_of_trace {k : Nat} (h : (trace arch ls m)[k]? = some m')
    (hrunning : m.returned = false) (start : Nat) :
    runLines arch start ls m =
      if m'.returned then .ok m' else runLines arch (start + (k + 1)) (ls.drop (k + 1)) m' := by
  induction ls generalizing m k start with
  | nil => cases h
  | cons l ls ih =>
      obtain ⟨m₁, hafter, ⟨rfl, rfl⟩ | ⟨j, rfl, hrunning₁, hj⟩⟩ := trace_cons_cases h
      · exact runLines_of_after? hafter hrunning start ls
      · rw [runLines_of_after? hafter hrunning, hrunning₁, if_neg Bool.false_ne_true,
          ih hj hrunning₁, List.drop_succ_cons, Nat.add_assoc start, Nat.add_comm 1]

/-- A run that returns goes through all lines up to the return. -/
theorem Returns.length_trace (h : Returns arch ls m m') (hrunning : m.returned = false) :
    (trace arch ls m).length = (upToReturn ls).length := by
  induction h with
  | @skip l ls m m' hop _ ih =>
      rw [upToReturn_of_empty hop, List.length_cons, ← ih hrunning]
      simp [trace, after?, hop, hrunning]
  | @ret l m m' ls hop hstep =>
      have hne : l.op ≠ "" := hop ▸ by decide
      have hreturned := ((effect_of_step hstep).returned_iff hrunning).mpr hop
      rw [upToReturn, if_pos hop]
      simp [trace, after?_of_step hne hstep, hreturned]
  | @step l ls m m₁ m' hop hret hstep _ ih =>
      have hrunning₁ := (effect_of_step hstep).returned_eq_false hrunning hret
      rw [upToReturn, if_neg hret, List.length_cons, ← ih hrunning₁]
      simp [trace, after?_of_step hop hstep, hrunning₁]

/-- A line that cannot be executed is the one that the run stops at. -/
theorem index_of_after?_eq_none {start index : Nat} {op : String} {fault : Fault}
    (hafter : after? arch l m = none)
    (h : runLines arch start (l :: ls) m = .error (.stopped index op fault)) : index = start := by
  unfold after? at hafter
  split at hafter
  · cases hafter
  case isFalse hop =>
    rw [runLines, if_neg hop] at h
    cases hstep : m.step? arch l with
    | none => simp [hstep] at h
    | some outcome =>
        cases outcome with
        | ok m₁ => simp [hstep] at hafter
        | error stop =>
            simp only [hstep, Except.error.injEq, RunError.stopped.injEq] at h
            exact h.1.symm

/-- A run that stops goes through all lines before the one it stops at. -/
theorem length_trace_of_stopped {start index : Nat} {op : String} {fault : Fault}
    (h : runLines arch start ls m = .error (.stopped index op fault))
    (hrunning : m.returned = false) : index = start + (trace arch ls m).length := by
  induction ls generalizing start m with
  | nil => cases h
  | cons l ls ih =>
      cases hafter : after? arch l m with
      | none =>
          rw [trace, hafter]
          exact index_of_after?_eq_none hafter h
      | some m₁ =>
          rw [runLines_of_after? hafter hrunning] at h
          split at h
          · cases h
          case isFalse hreturned =>
            have hrest := ih h (Bool.eq_false_iff.mpr hreturned)
            rw [trace_of_after? hafter, if_neg hreturned, List.length_cons]
            omega

end Machine

namespace Program

open Machine

/-- The machines that a run of the program goes through. -/
def trace (p : Program) : List Machine :=
  match p.main? with
  | none => []
  | some f => Machine.trace p.arch f.lines {}

/-- A division without a result ends the run. -/
def Traps (p : Program) : Prop :=
  ∃ index op cause, p.run = .error (.stopped index op (.ofDivision cause))

theorem length_trace_of_run_stopped {p : Program} {index : Nat} {op : String} {fault : Fault}
    (h : p.run = .error (.stopped index op fault)) : p.trace.length = index := by
  unfold run at h
  split at h
  · cases h
  cases hmain : p.main? with
  | none => simp [hmain] at h
  | some f =>
      simp only [hmain] at h
      rcases Result.bind_eq_error_iff.mp h with hlines | ⟨m, _, h⟩
      · rw [Machine.length_trace_of_stopped hlines rfl, trace, hmain, Nat.zero_add]
      · split at h <;> cases h

end Program

theorem Line.upToReturn_append_ret {ls : List Line} {ret : Line}
    (hls : ∀ l ∈ ls, l.op ≠ "ret") (hret : ret.op = "ret") :
    upToReturn (ls ++ [ret]) = ls ++ [ret] := by
  induction ls with
  | nil => exact if_pos hret
  | cons l ls ih =>
      have hl : l.op ≠ "ret" := hls l List.mem_cons_self
      rw [List.cons_append, upToReturn, if_neg hl,
        ih fun l' hl' => hls l' (List.mem_cons_of_mem l hl')]

namespace Target

open Line Code Machine

variable (t : Target) (e : Expr)

theorem exists_epilogue :
    ∃ pop ret, t.epilogue = [.pop pop, .plain ret] ∧ pop.op ∈ popNames ∧ ret.op = "ret" := by
  cases t with
  | x86_64Linux => exact ⟨_, _, rfl, by decide, rfl⟩
  | aarch64Linux | aarch64Darwin => exact ⟨_, _, rfl, by decide, rfl⟩

theorem emitted_between : Between 0 e.need (t.emitted e) := by
  obtain ⟨pop, ret, hepilogue, _, _⟩ := t.exists_epilogue
  have hneed := e.one_le_need
  have hpolish := t.expression_polish e
  rw [emitted, hepilogue]
  apply hpolish.between.append
  rw [hpolish.depth_eq_one]
  apply Between.cons (by omega) (by omega)
  rw [Emitted.change_pop]
  apply Between.cons (by omega) (by omega)
  rw [Emitted.change_plain]
  exact between_nil (by omega) (by omega)

/-- After some line the count is all that the expression needs. -/
theorem exists_height_emitted :
    ∃ k < (t.emitted e).length, height (t.emitted e) (k + 1) = e.need := by
  obtain ⟨k, hk, hheight⟩ := (t.expression_polish e).exists_height_eq
  have hneed := e.one_le_need
  cases k with
  | zero =>
      rw [height_zero] at hheight
      omega
  | succ k =>
      refine ⟨k, ?_, ?_⟩
      · rw [emitted, List.length_append]
        omega
      · rw [emitted, height_append_of_le hk, hheight]

theorem emitted_counted : ∀ x ∈ t.emitted e, x.Counted := by
  obtain ⟨pop, ret, hepilogue, hpop, hret⟩ := t.exists_epilogue
  intro x hx
  rw [emitted, hepilogue] at hx
  simp only [List.mem_append, List.mem_cons, List.not_mem_nil, or_false] at hx
  rcases hx with hx | rfl | rfl
  · exact ((t.expression_polish e).forall_counted x hx).1
  · exact Emitted.counted_pop hpop
  · exact Emitted.counted_plain (hret ▸ by decide) (hret ▸ by decide)

/-- The return is the last line, and only that. Nothing is left on the stack
before it. -/
theorem exists_return : ∃ body ret, t.emitted e = body ++ [ret] ∧ ret.line.op = "ret" ∧
    depth body = 0 ∧ ∀ x ∈ body, x.line.op ≠ "ret" := by
  obtain ⟨pop, ret, hepilogue, hpop, hret⟩ := t.exists_epilogue
  have hpolish := t.expression_polish e
  refine ⟨t.expression e ++ [.pop pop], .plain ret, ?_, hret, ?_, ?_⟩
  · rw [emitted, hepilogue, List.append_assoc, List.singleton_append]
  · rw [depth_append, hpolish.depth_eq_one]
    rfl
  · intro x hx
    rcases List.mem_append.mp hx with hx | hx
    · exact (hpolish.forall_counted x hx).2
    · obtain rfl := List.mem_singleton.mp hx
      exact fun hop => absurd (hop ▸ hpop) (by decide)

theorem upToReturn_emitted : upToReturn (Code.lines (t.emitted e)) = Code.lines (t.emitted e) := by
  obtain ⟨body, ret, hemitted, hret, _, hbody⟩ := t.exists_return e
  rw [hemitted, lines_append]
  apply upToReturn_append_ret _ hret
  intro l hl
  obtain ⟨x, hx, rfl⟩ := List.mem_map.mp hl
  exact hbody x hx

/-- A run that answers a word has executed every emitted line. -/
theorem length_trace_of_run_ok {v : Int64} (h : (t.program e).run = .ok v) :
    (t.program e).trace.length = (t.emitted e).length := by
  obtain ⟨_, f, m, hmain, hreturns, _, _⟩ := Program.run_eq_ok_iff.mp h
  obtain rfl := Option.some.inj hmain
  calc
    (t.program e).trace.length = (upToReturn (Code.lines (t.emitted e))).length :=
      hreturns.length_trace rfl
    _ = (Code.lines (t.emitted e)).length := by rw [upToReturn_emitted]
    _ = (t.emitted e).length := List.length_map _

/-- A run that answers no word has met a division without a result. -/
theorem exists_of_run_error {failure : RunError} (h : (t.program e).run = .error failure) :
    ∃ index op cause, failure = .stopped index op (.ofDivision cause) := by
  have harm (ht : t.arch = .aarch64) : False := by
    obtain ⟨p, hp, hrun⟩ := AArch64.lower_run ht e
    obtain rfl := Except.ok.inj ((t.lower_eq_program e).symm.trans hp)
    rw [hrun] at h
    cases h
  cases t with
  | x86_64Linux =>
      obtain ⟨p, hp, hvalue, herror⟩ := X86.lower_run e
      obtain rfl := Except.ok.inj ((lower_eq_program _ e).symm.trans hp)
      cases heval : Expr.eval e with
      | ok v =>
          rw [hvalue v heval] at h
          cases h
      | error err =>
          obtain ⟨index, hstop⟩ := herror err heval
          rw [hstop] at h
          exact ⟨index, _, err.cause, (Except.error.inj h).symm⟩
  | aarch64Linux | aarch64Darwin => exact (harm rfl).elim

/-- Every line is emitted at the count that the stack really has after it. The
count never is negative, is one after the expression and zero before the
return, so the generator's own check never fails. The stack holds at most the
words that the expression needs, and at some point exactly those unless a
division ends the run before. -/
theorem stack_follows_count :
    t.lower e = .ok (t.program e) ∧
      (∀ k, height (t.emitted e) k =
          (pushCount (Code.lines ((t.emitted e).take k)) : Int) -
            popCount (Code.lines ((t.emitted e).take k)) ∧
        0 ≤ height (t.emitted e) k) ∧
      depth (t.expression e) = 1 ∧
      (∃ body ret, t.emitted e = body ++ [ret] ∧ ret.line.op = "ret" ∧ depth body = 0) ∧
      (∀ k m, (t.program e).trace[k]? = some m →
        (runLines t.arch 0 (Code.lines (t.emitted e)) {} =
          if m.returned then .ok m
          else runLines t.arch (k + 1) ((Code.lines (t.emitted e)).drop (k + 1)) m) ∧
        (m.stack.length : Int) = height (t.emitted e) (k + 1) ∧ m.stack.length ≤ e.need) ∧
      (∀ v, (t.program e).run = .ok v → (t.program e).trace.length = (t.emitted e).length) ∧
      (∀ failure, (t.program e).run = .error failure →
        ∃ index op cause, failure = .stopped index op (.ofDivision cause) ∧
          (t.program e).trace.length = index) ∧
      (¬ (t.program e).Traps → ∃ m ∈ (t.program e).trace, m.stack.length = e.need) := by
  have hbetween := t.emitted_between e
  have hcounted := t.emitted_counted e
  have hstack : ∀ k m, (t.program e).trace[k]? = some m →
      (m.stack.length : Int) = height (t.emitted e) (k + 1) := by
    intro k m hm
    have hlength := length_stack_of_trace hcounted hm
    rwa [List.length_nil, Int.natCast_zero, Int.zero_add] at hlength
  refine ⟨t.lower_eq_program e, ?_, (t.expression_polish e).depth_eq_one, ?_, ?_,
    fun v => t.length_trace_of_run_ok e, ?_, ?_⟩
  · intro k
    have htake : ∀ x ∈ (t.emitted e).take k, x.Counted :=
      fun x hx => hcounted x (List.mem_of_mem_take hx)
    exact ⟨depth_eq_counts htake, (hbetween k).1⟩
  · obtain ⟨body, ret, hemitted, hret, hdepth, _⟩ := t.exists_return e
    exact ⟨body, ret, hemitted, hret, hdepth⟩
  · intro k m hm
    have hrun := runLines_of_trace hm rfl 0
    have hlength := hstack k m hm
    have hbound := (hbetween (k + 1)).2
    rw [Nat.zero_add] at hrun
    exact ⟨hrun, hlength, by omega⟩
  · intro failure hfailure
    obtain ⟨index, op, cause, rfl⟩ := t.exists_of_run_error e hfailure
    exact ⟨index, op, cause, rfl, Program.length_trace_of_run_stopped hfailure⟩
  · intro htraps
    cases hrun : (t.program e).run with
    | error failure =>
        obtain ⟨index, op, cause, rfl⟩ := t.exists_of_run_error e hrun
        exact absurd ⟨index, op, cause, hrun⟩ htraps
    | ok v =>
        obtain ⟨k, hk, hheight⟩ := t.exists_height_emitted e
        rw [← t.length_trace_of_run_ok e hrun] at hk
        have hm := List.getElem?_eq_getElem hk
        have hlength := hstack k _ hm
        exact ⟨_, List.mem_of_getElem? hm, by omega⟩

end Target

end ArithAsm
