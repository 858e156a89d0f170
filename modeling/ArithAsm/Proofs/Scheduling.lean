import ArithAsm.Proofs.Verdict
import Mathlib.Logic.Relation

/-!
Cases that are run at the same time. The cases of a batch are started one after
the other, as many at once as the batch allows, and each of them is run by a task
of its own, which stores the result in the slot of its case and leaves. The tasks
form a group: an error that a task returns would cancel the context which all of
them share and take the place of the results. Once every task has left, the slots
are the results.

The tasks may take their steps in any order. Whatever the order, the results are
those of the cases run one by one. Two tasks that write to the same memory at the
same time are outside of this model, and need not be in it, since each task has a
slot of its own.
-/

namespace ArithAsm.Suite

/-- The failures of a suite as one error, if there are any. -/
def aggregate (results : List CaseResult) : Option (List Text) :=
  match failures results with
  | [] => none
  | found => some found

theorem aggregate_eq_none_iff {results : List CaseResult} :
    aggregate results = none ↔ failures results = [] := by
  unfold aggregate
  split <;> simp_all

theorem eq_failures_of_aggregate {results : List CaseResult} {texts : List Text}
    (h : aggregate results = some texts) : texts = failures results := by
  unfold aggregate at h
  split at h
  · cases h
  · exact (Option.some.inj h).symm

/-- Cases to be run, no more than `jobs` of them at once if that number is
positive. An executor is told whether the shared context is canceled, and knows
nothing else of the other cases. -/
structure Batch where
  cases : List Case
  jobs : Int
  compile : Text → Except CompileError Compilation
  execute : Bool → Executor
  canceled : Bool := false

/-- A group of tasks, each known by the number of its case. A task is `running`
until it has stored a result, and `leaving` until the group has noticed its end.
`fault` is the first error that a task returned. -/
structure Pool where
  started : Nat := 0
  running : List Nat := []
  leaving : List Nat := []
  slots : List CaseResult
  fault : Option CaseFailure := none

inductive Stage where
  | active (p : Pool)
  | returned (results : List CaseResult) (error : Option (List Text))
  | aborted (fault : CaseFailure)
  | crashed

/-- What a task returns to its group. A case that fails says so in its result, and
its task returns no error. -/
def taskError : Option CaseFailure := none

/-- A slot that nothing has been stored in. -/
def blank : CaseResult := ⟨⟨[], [], none, false⟩, false, 0, none⟩

namespace Batch

def plan (b : Batch) (canceled : Bool) : Plan := ⟨b.compile, b.execute canceled⟩

/-- The first error of a task cancels the context that all tasks share. -/
def contextCanceled (b : Batch) (p : Pool) : Bool := b.canceled || p.fault.isSome

def result (b : Batch) (p : Pool) (c : Case) : CaseResult :=
  runCase (b.plan (b.contextCanceled p)) c

def HasRoom (b : Batch) (p : Pool) : Prop :=
  b.jobs ≤ 0 ∨ ((p.running.length + p.leaving.length : Nat) : Int) < b.jobs

def initial (b : Batch) : Stage :=
  .active { slots := List.replicate b.cases.length blank }

/-- One step of the group or of a task. A result without anything to compare it with
is a crash of the whole program. -/
inductive Step (b : Batch) : Stage → Stage → Prop where
  | start {p : Pool} : p.started < b.cases.length → b.HasRoom p →
      Step b (.active p)
        (.active { p with started := p.started + 1, running := p.started :: p.running })
  | store {p : Pool} {i : Nat} {c : Case} : i ∈ p.running → b.cases[i]? = some c →
      (b.result p c).failure ≠ some .noExpectation →
      Step b (.active p)
        (.active { p with
          running := p.running.erase i
          leaving := i :: p.leaving
          slots := p.slots.set i (b.result p c) })
  | crash {p : Pool} {i : Nat} {c : Case} : i ∈ p.running → b.cases[i]? = some c →
      (b.result p c).failure = some .noExpectation → Step b (.active p) .crashed
  | leave {p : Pool} {i : Nat} : i ∈ p.leaving →
      Step b (.active p)
        (.active { p with leaving := p.leaving.erase i, fault := p.fault.or taskError })
  | abort {p : Pool} {fault : CaseFailure} : p.started = b.cases.length → p.running = [] →
      p.leaving = [] → p.fault = some fault → Step b (.active p) (.aborted fault)
  | join {p : Pool} : p.started = b.cases.length → p.running = [] → p.leaving = [] →
      p.fault = none → Step b (.active p) (.returned p.slots (aggregate p.slots))

/-- The stages that some interleaving of a number of steps leads to. -/
inductive Reaches (b : Batch) : Nat → Stage → Prop where
  | initial : Reaches b 0 b.initial
  | step {n : Nat} {stage next : Stage} : Reaches b n stage → b.Step stage next →
      Reaches b (n + 1) next

/-- The invariant of a group: a case that was started and is not running any more
has its own result in its slot. -/
structure Sound (b : Batch) (p : Pool) : Prop where
  fault : p.fault = none
  slots : p.slots.length = b.cases.length
  started : p.started ≤ b.cases.length
  running : ∀ i ∈ p.running, i < p.started
  limit : 0 < b.jobs → ((p.running.length + p.leaving.length : Nat) : Int) ≤ b.jobs
  stored : ∀ i c, i < p.started → i ∉ p.running → b.cases[i]? = some c →
    p.slots[i]? = some (runCase (b.plan b.canceled) c)

theorem Sound.result_eq {b : Batch} {p : Pool} (h : b.Sound p) (c : Case) :
    b.result p c = runCase (b.plan b.canceled) c := by
  simp [result, contextCanceled, h.fault]

theorem sound_initial (b : Batch) : b.Sound { slots := List.replicate b.cases.length blank } where
  fault := rfl
  slots := List.length_replicate
  started := Nat.zero_le _
  running := by simp
  limit := by
    intro hjobs
    simp only [List.length_nil]
    omega
  stored := by
    intro i c hi
    cases hi

section Steps

variable {b : Batch} {p : Pool}

theorem Sound.start (h : b.Sound p) (hstarted : p.started < b.cases.length) (hroom : b.HasRoom p) :
    b.Sound { p with started := p.started + 1, running := p.started :: p.running } where
  fault := h.fault
  slots := h.slots
  started := hstarted
  running := by
    intro i hi
    rcases List.mem_cons.mp hi with rfl | hi
    · exact Nat.lt_succ_self _
    · exact Nat.lt_succ_of_lt (h.running i hi)
  limit := by
    intro hjobs
    unfold HasRoom at hroom
    simp only [List.length_cons]
    omega
  stored := by
    intro i c (hi : i < p.started + 1) hrunning hc
    obtain ⟨hne, hrunning⟩ := not_or.mp (mt List.mem_cons.mpr hrunning)
    exact h.stored i c (by omega) hrunning hc

theorem Sound.store (h : b.Sound p) {i : Nat} {c : Case} (hi : i ∈ p.running)
    (hc : b.cases[i]? = some c) :
    b.Sound { p with
      running := p.running.erase i
      leaving := i :: p.leaving
      slots := p.slots.set i (b.result p c) } where
  fault := h.fault
  slots := by rw [List.length_set, h.slots]
  started := h.started
  running := fun j hj => h.running j (List.mem_of_mem_erase hj)
  limit := by
    intro hjobs
    have hlimit := h.limit hjobs
    have hpos : 0 < p.running.length := List.length_pos_of_mem hi
    simp only [List.length_erase_of_mem hi, List.length_cons]
    omega
  stored := by
    intro j c' hj hrunning hc'
    by_cases hij : i = j
    · subst hij
      obtain rfl : c = c' := Option.some.inj (hc.symm.trans hc')
      have hslot : i < p.slots.length := by
        rw [h.slots]
        exact (List.getElem?_eq_some_iff.mp hc).1
      rw [List.getElem?_set_self hslot, h.result_eq]
    · rw [List.getElem?_set_ne hij]
      exact h.stored j c' hj (fun hmem => hrunning ((List.mem_erase_of_ne (Ne.symm hij)).mpr hmem)) hc'

theorem Sound.leave (h : b.Sound p) {i : Nat} (hi : i ∈ p.leaving) :
    b.Sound { p with leaving := p.leaving.erase i, fault := p.fault.or taskError } where
  fault := by rw [h.fault]; rfl
  slots := h.slots
  started := h.started
  running := h.running
  limit := by
    intro hjobs
    have hlimit := h.limit hjobs
    simp only [List.length_erase_of_mem hi]
    omega
  stored := h.stored

/-- Once every case was started and none is running, the slots hold the results of
the cases run one by one. -/
theorem Sound.slots_eq (h : b.Sound p) (hstarted : p.started = b.cases.length)
    (hrunning : p.running = []) : p.slots = run (b.plan b.canceled) b.cases := by
  apply List.ext_getElem?
  intro i
  cases hc : b.cases[i]? with
  | none =>
      have hi : b.cases.length ≤ i := List.getElem?_eq_none_iff.mp hc
      rw [List.getElem?_eq_none_iff.mpr (by rw [h.slots]; exact hi)]
      simp [run, hc]
  | some c =>
      have hi : i < b.cases.length := (List.getElem?_eq_some_iff.mp hc).1
      rw [h.stored i c (by omega) (by simp [hrunning]) hc]
      simp [run, hc]

/-- As long as a group is active, there is a step that it can take. -/
theorem Sound.exists_step (h : b.Sound p) : ∃ next, b.Step (.active p) next := by
  by_cases hrunning : p.running = []
  · by_cases hleaving : p.leaving = []
    · by_cases hstarted : p.started = b.cases.length
      · exact ⟨_, .join hstarted hrunning hleaving h.fault⟩
      · have hroom : b.HasRoom p := by
          unfold HasRoom
          simp only [hrunning, hleaving, List.length_nil]
          omega
        exact ⟨_, .start (Nat.lt_of_le_of_ne h.started hstarted) hroom⟩
    · obtain ⟨i, hi⟩ := List.exists_mem_of_ne_nil p.leaving hleaving
      exact ⟨_, .leave hi⟩
  · obtain ⟨i, hi⟩ := List.exists_mem_of_ne_nil p.running hrunning
    have hlt : i < b.cases.length := Nat.lt_of_lt_of_le (h.running i hi) h.started
    have hc : b.cases[i]? = some b.cases[i] := List.getElem?_eq_getElem hlt
    by_cases hcrash : (b.result p b.cases[i]).failure = some .noExpectation
    · exact ⟨_, .crash hi hc hcrash⟩
    · exact ⟨_, .store hi hc hcrash⟩

end Steps

/-- What holds at every stage. -/
def Consistent (b : Batch) : Stage → Prop
  | .active p => b.Sound p
  | .returned results error =>
      results = run (b.plan b.canceled) b.cases ∧ error = aggregate results
  | .aborted _ => False
  | .crashed => ∃ c ∈ b.cases, c.status = none ∧ c.error = false

theorem Step.consistent {b : Batch} {stage next : Stage} (hstep : b.Step stage next)
    (h : b.Consistent stage) : b.Consistent next := by
  cases hstep with
  | start hstarted hroom => exact Sound.start h hstarted hroom
  | store hi hc _ => exact Sound.store h hi hc
  | crash _ hc hcrash =>
      exact ⟨_, List.mem_of_getElem? hc, expects_nothing_of_noExpectation hcrash⟩
  | leave hi => exact Sound.leave h hi
  | abort _ _ _ hfault =>
      rw [Sound.fault h] at hfault
      cases hfault
  | join hstarted hrunning _ _ => exact ⟨Sound.slots_eq h hstarted hrunning, rfl⟩

theorem Reaches.consistent {b : Batch} {n : Nat} {stage : Stage} (h : b.Reaches n stage) :
    b.Consistent stage := by
  induction h with
  | initial => exact b.sound_initial
  | step _ hstep ih => exact hstep.consistent ih

/-- The steps that are left at most: three for each case to be started, two for each
that is running, one for each that is leaving, and the last one. -/
def remaining (b : Batch) : Stage → Nat
  | .active p => 3 * (b.cases.length - p.started) + 2 * p.running.length + p.leaving.length + 1
  | _ => 0

theorem Step.remaining_lt {b : Batch} {stage next : Stage} (hstep : b.Step stage next) :
    b.remaining next < b.remaining stage := by
  cases hstep with
  | start hstarted _ =>
      simp only [remaining, List.length_cons]
      omega
  | store hi _ _ =>
      have hpos := List.length_pos_of_mem hi
      simp only [remaining, List.length_erase_of_mem hi, List.length_cons]
      omega
  | leave hi =>
      have hpos := List.length_pos_of_mem hi
      simp only [remaining, List.length_erase_of_mem hi]
      omega
  | crash | abort | join => simp only [remaining]; omega

theorem Reaches.length_le {b : Batch} {n : Nat} {stage : Stage} (h : b.Reaches n stage) :
    n + b.remaining stage ≤ 3 * b.cases.length + 1 := by
  induction h with
  | initial => simp [Batch.initial, remaining]
  | step _ hstep ih =>
      have hlt := hstep.remaining_lt
      omega

/-- Whatever happened so far, the cases can be run to their end, and what they come
to is settled. -/
theorem Consistent.returns {b : Batch} (hclear : ∀ c ∈ b.cases, Clear c) {stage : Stage}
    (h : b.Consistent stage) :
    Relation.ReflTransGen b.Step stage
      (.returned (run (b.plan b.canceled) b.cases)
        (aggregate (run (b.plan b.canceled) b.cases))) := by
  induction hremaining : b.remaining stage using Nat.strongRecOn generalizing stage with
  | ind n ih =>
      cases stage with
      | active p =>
          obtain ⟨next, hstep⟩ := Sound.exists_step h
          have hlt := hstep.remaining_lt
          exact .head hstep (ih _ (hremaining ▸ hlt) (hstep.consistent h) rfl)
      | returned results error =>
          obtain ⟨rfl, rfl⟩ := h
          exact .refl
      | aborted fault => exact h.elim
      | crashed =>
          obtain ⟨c, hc, hstatus, herror⟩ := h
          have := hclear c hc
          simp [Clear, hstatus, herror] at this

/-- The results of a batch do not depend on the order in which its tasks take their
steps. Wherever an interleaving ends, the results are those of the cases run one by
one. There is an error exactly if some case has not passed, and then it is made of
one report for each such case, in the order of the cases. No interleaving gets stuck
or goes on forever, none runs more cases at once than the batch allows, and only a
case that expects nothing can bring it to a crash. -/
theorem outcome_of_reaches (b : Batch) {n : Nat} {stage : Stage} (h : b.Reaches n stage) :
    (∀ results error, stage = .returned results error →
      results = run (b.plan b.canceled) b.cases ∧
      (error = none ↔ ∀ r ∈ results, r.passed = true) ∧
      ∀ texts, error = some texts →
        List.Forall₂ Reports (results.filter (!·.passed)) texts) ∧
    (∀ p, stage = .active p →
      (0 < b.jobs → ((p.running.length + p.leaving.length : Nat) : Int) ≤ b.jobs) ∧
      ∃ next, b.Step stage next) ∧
    (∀ fault, stage ≠ .aborted fault) ∧
    (stage = .crashed → ∃ c ∈ b.cases, c.status = none ∧ c.error = false) ∧
    n ≤ 3 * b.cases.length + 1 ∧
    ((∀ c ∈ b.cases, Clear c) →
      ∃ error, Relation.ReflTransGen b.Step stage
        (.returned (run (b.plan b.canceled) b.cases) error)) := by
  have hconsistent := h.consistent
  have hlength := h.length_le
  refine ⟨?_, ?_, ?_, ?_, by omega, fun hclear => ⟨_, hconsistent.returns hclear⟩⟩
  · rintro results error rfl
    obtain ⟨rfl, rfl⟩ := hconsistent
    have hpassed := passed_iff_of_mem_run (b.plan b.canceled) b.cases
    refine ⟨rfl, ?_, ?_⟩
    · rw [aggregate_eq_none_iff, failures_eq_nil_iff hpassed]
    · intro texts htexts
      rw [eq_failures_of_aggregate htexts]
      exact forall₂_failures hpassed
  · rintro p rfl
    exact ⟨Sound.limit hconsistent, Sound.exists_step hconsistent⟩
  · rintro fault rfl
    exact hconsistent
  · rintro rfl
    exact hconsistent

/-- Two cases on the built-in machine, which gives up if the context is canceled. The
first case fails. -/
def overtaken : Batch where
  cases := [wideCase, openCase]
  jobs := 2
  compile := ArithAsm.compile .x86_64Linux {}
  execute := fun canceled => if canceled then .failing .canceled else .emulator

/-- Both cases are started, and the second one is done before the first one has a
result. -/
theorem reaches_overtaken :
    ∃ results error, overtaken.Reaches 7 (.returned results error) := by
  have hwide : Clear wideCase := rfl
  have hopen : Clear openCase := rfl
  have hfirst : overtaken.Reaches 1 (.active ⟨1, [0], [], [blank, blank], none⟩) :=
    .step .initial (.start (by decide) (.inr (by decide)))
  have hboth : overtaken.Reaches 2 (.active ⟨2, [1, 0], [], [blank, blank], none⟩) :=
    hfirst.step (.start (by decide) (.inr (by decide)))
  have hstored := hboth.step (.store (i := 1) (by simp) rfl hopen.verdict.1)
  have hleft := hstored.step (.leave (i := 1) (by simp))
  have hslow := hleft.step (.store (i := 0) (by simp) rfl hwide.verdict.1)
  have hended := hslow.step (.leave (i := 0) (by simp))
  exact ⟨_, _, hended.step (.join rfl rfl rfl rfl)⟩

theorem outcome_of_overtaken :
    ∃ results error, overtaken.Reaches 7 (.returned results error) ∧
      results.map (·.passed) = [false, true] ∧ error ≠ none := by
  obtain ⟨results, error, hreaches⟩ := reaches_overtaken
  obtain ⟨hresults, herror, _⟩ := (outcome_of_reaches overtaken hreaches).1 results error rfl
  have hpassed : results.map (·.passed) = [false, true] := by
    rw [hresults]
    decide +kernel
  refine ⟨results, error, hreaches, hpassed, ?_⟩
  intro hnone
  have hfalse : false ∈ results.map (·.passed) := by simp [hpassed]
  obtain ⟨r, hr, hr'⟩ := List.mem_map.mp hfalse
  have htrue : r.passed = true := herror.mp hnone r hr
  rw [htrue] at hr'
  cases hr'

end Batch

end ArithAsm.Suite
