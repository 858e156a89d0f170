import ArithAsm.Suite
import ArithAsm.Proofs.Compilation

/-!
The verdict of a suite is that of the reference evaluation. Validation leaves only
cases that expect exactly one outcome, selection adds no others, and such a case
passes if and only if compiling and running it come to what it expects. The failures
of a suite are those of the cases that have not passed.
-/

namespace ArithAsm.Suite

/-- Exactly one outcome is expected: a status, or an error. -/
def Clear (c : Case) : Prop :=
  c.error = c.status.isNone

theorem clear_of_defect? {seen : List Text} {number : Nat} {c : Case}
    (h : defect? seen number c = none) : Clear c := by
  unfold defect? at h
  split at h
  · cases h
  split at h
  · cases h
  split at h
  · cases h
  · rename_i hone
    unfold Clear
    cases herror : c.error <;> cases hstatus : c.status.isNone <;> simp_all

theorem clear_of_defectsFrom {seen : List Text} {number : Nat} {cases : List Case}
    (h : defectsFrom seen number cases = []) : ∀ c ∈ cases, Clear c := by
  induction cases generalizing seen number with
  | nil => simp
  | cons c rest ih =>
      rw [defectsFrom, List.append_eq_nil_iff] at h
      obtain ⟨hfirst, hrest⟩ := h
      refine List.forall_mem_cons.mpr ⟨?_, ih hrest⟩
      cases hdefect : defect? seen number c with
      | none => exact clear_of_defect? hdefect
      | some defect => simp [hdefect] at hfirst

/-- Validation accepts a list as it is, and only if each case is clear. -/
theorem clear_of_validate {cases accepted : List Case} (h : validate cases = .ok accepted) :
    ∀ c ∈ accepted, Clear c := by
  unfold validate at h
  split at h
  · rename_i hnone
    obtain rfl := Except.ok.inj h
    exact clear_of_defectsFrom hnone
  · cases h

theorem mem_of_selectOne {cases found : List Case} {id : Text}
    (h : selectOne cases id = .ok found) : ∀ c ∈ found, c ∈ cases := by
  unfold selectOne at h
  split at h
  · cases h
  · obtain rfl := Except.ok.inj h
    exact fun c hc => (List.mem_filter.mp hc).1

theorem mem_of_select {cases selected : List Case} {ids : List Text}
    (h : select cases ids = .ok selected) : ∀ c ∈ selected, c ∈ cases := by
  unfold select at h
  split at h
  · obtain rfl := Except.ok.inj h
    exact fun c hc => hc
  · obtain ⟨found, hfound, h⟩ := Result.bind_eq_ok_iff.mp h
    obtain rfl := Except.ok.inj h
    intro c hc
    obtain ⟨part, hpart, hc⟩ := List.mem_flatten.mp hc
    obtain ⟨id, _, hid⟩ := Result.exists_of_mem_mapM hfound hpart
    exact mem_of_selectOne hid c hc

/-- A clear case expects an error and no status, or a status and no error. -/
theorem Clear.cases {c : Case} (h : Clear c) :
    (c.error = true ∧ c.status = none) ∨ (c.error = false ∧ ∃ s, c.status = some s) := by
  cases hstatus : c.status with
  | none => exact .inl ⟨by rw [h, hstatus]; rfl, rfl⟩
  | some s => exact .inr ⟨by rw [h, hstatus]; rfl, s, rfl⟩

section Cases

variable {plan : Plan} {c : Case}

@[simp] theorem case_runCase : (runCase plan c).case = c := by
  unfold runCase judge
  repeat' split
  all_goals rfl

/-- The two accounts that a result gives agree: it has passed, or it has a
failure. -/
theorem passed_runCase_iff :
    (runCase plan c).passed = true ↔ (runCase plan c).failure = none := by
  unfold runCase judge
  repeat' split
  all_goals simp

/-- A clear case is never left with a status and nothing to compare it with, and
what it takes to pass is what it says, with any way to compile and to run. -/
theorem Clear.verdict (h : Clear c) :
    (runCase plan c).failure ≠ some .noExpectation ∧
    ((runCase plan c).passed = true ↔
      (c.error = true ∧ ∃ err, plan.compile c.input = .error err) ∨
      ∃ s compiled, c.status = some s ∧ plan.compile c.input = .ok compiled ∧
        plan.execute compiled = .ok s) := by
  rcases h.cases with ⟨herror, hstatus⟩ | ⟨herror, s, hstatus⟩
  · cases hcompile : plan.compile c.input with
    | ok compiled => simp [runCase, hcompile, herror, hstatus]
    | error err => simp [runCase, hcompile, herror]
  · cases hcompile : plan.compile c.input with
    | error err => simp [runCase, hcompile, herror]
    | ok compiled =>
        cases hexecute : plan.execute compiled with
        | error err => simp [runCase, hcompile, hexecute, herror]
        | ok status =>
            by_cases hequal : status = s
            · simp [runCase, judge, hcompile, hexecute, herror, hstatus, hequal]
            · simp [runCase, judge, hcompile, hexecute, herror, hstatus, hequal]

/-- Only a case that expects nothing is left without an expectation. -/
theorem expects_nothing_of_noExpectation (h : (runCase plan c).failure = some .noExpectation) :
    c.status = none ∧ c.error = false := by
  unfold runCase judge at h
  grind

end Cases

/-- What the failure of a case is reported as. -/
def Reports (r : CaseResult) (text : Text) : Prop :=
  ∃ f, r.failure = some f ∧ text = r.case.name ++ ": " ++ f.message

/-- The failures of results are those of the results that have not passed, one for
each of them and in their order. -/
theorem forall₂_failures {results : List CaseResult}
    (h : ∀ r ∈ results, r.passed = true ↔ r.failure = none) :
    List.Forall₂ Reports (results.filter (!·.passed)) (failures results) := by
  induction results with
  | nil => exact .nil
  | cons r results ih =>
      have hrest := ih fun r' hr' => h r' (List.mem_cons_of_mem r hr')
      have hr := h r List.mem_cons_self
      cases hpassed : r.passed with
      | true => simpa [failures, failureText, hpassed] using hrest
      | false =>
          obtain ⟨f, hf⟩ : ∃ f, r.failure = some f := by
            rw [← Option.isSome_iff_exists, Option.isSome_iff_ne_none]
            simp [← hr, hpassed]
          have htext : failureText r = some (r.case.name ++ ": " ++ f.message) := by
            simp [failureText, hpassed, hf]
          rw [List.filter_cons_of_pos (by simp [hpassed]), failures,
            List.filterMap_cons_some htext]
          exact .cons ⟨f, hf, rfl⟩ hrest

theorem passed_iff_of_mem_run (plan : Plan) (cases : List Case) :
    ∀ r ∈ run plan cases, r.passed = true ↔ r.failure = none := by
  intro r hr
  obtain ⟨c, _, rfl⟩ := List.mem_map.mp hr
  exact passed_runCase_iff

theorem failures_eq_nil_iff {results : List CaseResult}
    (h : ∀ r ∈ results, r.passed = true ↔ r.failure = none) :
    failures results = [] ↔ ∀ r ∈ results, r.passed = true := by
  have hlength := (forall₂_failures h).length_eq
  rw [← List.length_eq_zero_iff, ← hlength, List.length_eq_zero_iff, List.filter_eq_nil_iff]
  simp

theorem emulator_eq_ok_iff {t : Target} {opts : ReadOptions} {source : Text} {c : Compilation}
    (h : compile t opts source = .ok c) {s : Int} :
    Executor.emulator c = .ok s ↔ ∃ v, t.value? c.expr = some v ∧ s = v.toInt % 256 := by
  unfold Executor.emulator
  cases hrun : c.program.run with
  | ok v =>
      have hv : t.value? c.expr = some v := (run_of_compile h v).mp hrun
      simp [hv, natCast_exitStatus, eq_comm]
  | error err =>
      have hnone : ∀ v, t.value? c.expr ≠ some v := by
        intro v hv
        rw [(run_of_compile h v).mpr hv] at hrun
        cases hrun
      simp [hnone]

/-- On the built-in machine a status is that of the value which the target gives
to the expression. -/
theorem Clear.passed_emulated_iff {c : Case} (h : Clear c) (t : Target) (opts : ReadOptions) :
    (runCase ⟨compile t opts, .emulator⟩ c).passed = true ↔
      (c.error = true ∧ ∃ err, compile t opts c.input = .error err) ∨
      ∃ s compiled v, c.status = some s ∧ compile t opts c.input = .ok compiled ∧
        t.value? compiled.expr = some v ∧ s = v.toInt % 256 := by
  rw [h.verdict.2]
  apply or_congr_right
  constructor
  · rintro ⟨s, compiled, hstatus, hcompile, hexecute⟩
    obtain ⟨v, hv, hs⟩ := (emulator_eq_ok_iff hcompile).mp hexecute
    exact ⟨s, compiled, v, hstatus, hcompile, hv, hs⟩
  · rintro ⟨s, compiled, v, hstatus, hcompile, hv, hs⟩
    exact ⟨s, compiled, hstatus, hcompile, (emulator_eq_ok_iff hcompile).mpr ⟨v, hv, hs⟩⟩

theorem Clear.passed_eq_false {c : Case} (h : Clear c) (t : Target) (opts : ReadOptions) {s : Int}
    (hstatus : c.status = some s) (hrange : s < 0 ∨ 255 < s) :
    (runCase ⟨compile t opts, .emulator⟩ c).passed = false := by
  rw [← Bool.not_eq_true, h.passed_emulated_iff t opts]
  rintro (⟨herror, _⟩ | ⟨s', _, v, hstatus', _, _, hs'⟩)
  · rw [h, hstatus] at herror
    cases herror
  · obtain rfl := Option.some.inj (hstatus.symm.trans hstatus')
    omega

/-- A suite of validated cases, all or some of them, gives each case the verdict
of the reference evaluation, on every target. Nothing crashes on the way: no
status is missing, and the only errors of compilation are those of reading the
text. A case passes if it expects an error and does not compile, or if it
compiles, its expression has a value, and the expected status is the low byte of
that value; so no status outside of a byte passes. A result has passed exactly if
it has no failure. -/
theorem run_verdict {cases accepted selected : List Case} {ids : List Text}
    (hvalid : validate cases = .ok accepted) (hselect : select accepted ids = .ok selected)
    (t : Target) (opts : ReadOptions) :
    (run ⟨compile t opts, .emulator⟩ selected).map (·.case) = selected ∧
    ∀ r ∈ run ⟨compile t opts, .emulator⟩ selected,
      r.failure ≠ some .noExpectation ∧
      (∀ err, compile t opts r.case.input = .error err →
        (∃ e, err = .lexing e) ∨ ∃ e, err = .parsing e) ∧
      (r.passed = true ↔
        (r.case.error = true ∧ ∃ err, compile t opts r.case.input = .error err) ∨
        ∃ s c v, r.case.status = some s ∧ compile t opts r.case.input = .ok c ∧
          t.value? c.expr = some v ∧ s = v.toInt % 256) ∧
      (∀ s, r.case.status = some s → s < 0 ∨ 255 < s → r.passed = false) ∧
      (r.passed = true ↔ r.failure = none) := by
  refine ⟨by simp [run, Function.comp_def], ?_⟩
  intro r hr
  obtain ⟨c, hc, rfl⟩ := List.mem_map.mp hr
  have hclear : Clear c := clear_of_validate hvalid c (mem_of_select hselect c hc)
  rw [case_runCase]
  refine ⟨hclear.verdict.1, ?_, hclear.passed_emulated_iff t opts, ?_, passed_runCase_iff⟩
  · intro err herr
    rcases compile_error_cases herr with ⟨e, _, rfl⟩ | ⟨_, e, _, _, rfl⟩
    · exact .inl ⟨e, rfl⟩
    · exact .inr ⟨e, rfl⟩
  · intro s hstatus hrange
    exact hclear.passed_eq_false t opts hstatus hrange

def openCase : Case := ⟨"1_open", "(1", none, true⟩

/-- A case with a status that no process ends with. -/
def wideCase : Case := ⟨"2_wide", "16*16", some 256, false⟩

def sumCase : Case := ⟨"2_sum", "1+1", some 2, false⟩

theorem run_verdict_wideCase :
    validate [openCase, wideCase, sumCase] = .ok [openCase, wideCase, sumCase] ∧
    select [openCase, wideCase, sumCase] ["2", "1_open"] = .ok [wideCase, sumCase, openCase] ∧
    (runCase ⟨compile .aarch64Darwin {}, .emulator⟩ wideCase).passed = false ∧
    (runCase ⟨compile .aarch64Darwin {}, .emulator⟩ openCase).passed = true := by
  have hvalid : validate [openCase, wideCase, sumCase] = .ok [openCase, wideCase, sumCase] := by
    decide
  have hselect : select [openCase, wideCase, sumCase] ["2", "1_open"] =
      .ok [wideCase, sumCase, openCase] := by
    decide
  have hread : readExpr {} openCase.input =
      .error (.parsing (.ofLexeme .unclosedParen (.eofAt ⟨1, 3, 2⟩))) := by
    with_unfolding_all rfl
  obtain ⟨_, hresults⟩ := run_verdict hvalid hselect .aarch64Darwin {}
  have hwide := hresults (runCase _ wideCase) (List.mem_map_of_mem (by simp))
  have hopen := hresults (runCase _ openCase) (List.mem_map_of_mem (by simp))
  rw [case_runCase] at hwide hopen
  refine ⟨hvalid, hselect, hwide.2.2.2.1 256 rfl (.inr (by decide)), ?_⟩
  exact hopen.2.2.1.mpr (.inl ⟨rfl, _, compile_of_readExpr_error hread .aarch64Darwin⟩)

end ArithAsm.Suite
