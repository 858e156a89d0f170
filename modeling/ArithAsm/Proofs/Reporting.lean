import ArithAsm.Command.Check
import ArithAsm.Proofs.CommandLine
import ArithAsm.Proofs.LeadingOptions
import ArithAsm.Proofs.Storage
import ArithAsm.Proofs.Tables
import ArithAsm.Proofs.Verdict

/-!
The report of the command that runs cases on the built-in machine. The entries, the
numbers of the summary and the exit code are computed apart from one another: from
the verdicts, from a count and a difference, and from the failures. They agree. Each
selected case has one entry, the summary counts the entries, and the command succeeds
exactly if all cases have passed. This holds for any decoding of case files, and for any
way to draw the summary from which its cells can be read.
-/

namespace ArithAsm.Command.Check

/-- The arguments select cases of the file at a path, to be run for a target: they can be
read, the target is known, and the file can be read and decoded, its cases are in order,
and there is one for each id. -/
def Selects {σ : Type} (formats : Formats) (files : FileSystem (StateM σ)) (host : Host)
    (args : List Text) (s : σ) (path : Text) (t : Target) (chosen : List Case) : Prop :=
  ∃ a body cases, Options.Leading.parse specs args = .ok a ∧ path = casesPath a ∧
    Target.ofName (a.text "target" host.target.name) = .ok t ∧
    (files.read path s).1 = .ok body ∧ Suite.accept (formats.decode body) = .ok cases ∧
    Suite.select cases a.operands = .ok chosen

/-- What becomes of cases on the built-in machine. -/
def results (t : Target) (chosen : List Case) : List CaseResult :=
  Suite.run ⟨compile t {}, .emulator⟩ chosen

/-- The entry of a result says that its case has passed, or why it has not. -/
inductive Entry (r : CaseResult) : Text → Prop where
  | pass : r.passed = true → Entry r ("PASS " ++ r.case.name ++ "\n")
  | fail {f : CaseFailure} : r.passed = false → r.failure = some f →
      Entry r ("FAIL " ++ r.case.name ++ ": " ++ f.message ++ "\n")

def isPass (entry : Text) : Bool := ("PASS " : Text).isPrefixOf entry

def isFail (entry : Text) : Bool := ("FAIL " : Text).isPrefixOf entry

/-- The report on results: an entry for each of them, in their order, and then a table
in which one reads the numbers of entries of both kinds and of all entries. -/
def Report (host : Host) (t : Target) (results : List CaseResult) (output : Text) : Prop :=
  ∃ entries table, output = entries.flatten ++ table ∧ List.Forall₂ Entry results entries ∧
    entries.countP isPass + entries.countP isFail = entries.length ∧
    Table.words table =
      (["TARGET", "EXECUTOR", "PASSED", "FAILED", "TOTAL", "ELAPSED",
        t.name, "emulator", Decimal.ofInt (entries.countP isPass),
        Decimal.ofInt (entries.countP isFail), Decimal.ofInt entries.length,
        host.totalElapsed] : List Text)

section Entries

variable {r : CaseResult} {entry : Text} {results : List CaseResult} {entries : List Text}

theorem entry_verdict (h : r.passed = true ↔ r.failure = none) : Entry r (verdict r) := by
  unfold verdict
  split
  · rename_i hpassed
    exact .pass hpassed
  · rename_i hfailed
    split
    · rename_i f hf
      exact .fail (by simpa using hfailed) hf
    · rename_i hnone
      exact absurd (h.mpr hnone) hfailed

theorem Entry.isPass_eq (h : Entry r entry) : isPass entry = r.passed := by
  cases h with
  | pass hpassed => simp [isPass, hpassed, List.append_assoc]
  | fail hfailed =>
      rw [hfailed]
      rfl

theorem Entry.isFail_eq (h : Entry r entry) : isFail entry = !r.passed := by
  cases h with
  | pass hpassed =>
      rw [hpassed]
      rfl
  | fail hfailed => simp [isFail, hfailed, List.append_assoc]

theorem countP_isPass (h : List.Forall₂ Entry results entries) :
    entries.countP isPass = passedCount results := by
  unfold passedCount
  induction h with
  | nil => rfl
  | cons hentry _ ih => simp only [List.countP_cons, hentry.isPass_eq, ih]

/-- What the count of the passed leaves of the results is the number of entries
against a case. -/
theorem countP_isFail (h : List.Forall₂ Entry results entries) :
    passedCount results + entries.countP isFail = results.length := by
  unfold passedCount
  induction h with
  | nil => rfl
  | @cons r _ _ _ hentry _ ih =>
      simp only [List.countP_cons, List.length_cons, hentry.isFail_eq]
      cases r.passed <;> simp <;> omega

end Entries

section Emulation

variable {formats : Formats} {host : Host} (a : Arguments) (t : Target) (chosen : List Case)

theorem isWord_of_mem_cells {elapsed : Text} (helapsed : Table.IsWord elapsed)
    (passed failed : Int) :
    ∀ c ∈ cells t.name "emulator" passed failed elapsed, Table.IsWord c := by
  have htarget : Table.IsWord t.name := by cases t <;> decide
  simp only [cells, List.forall_mem_cons]
  exact ⟨htarget, by decide, Decimal.isWord_ofInt _, Decimal.isWord_ofInt _,
    Decimal.isWord_ofInt _, helapsed, by simp⟩

theorem report_emulated (hdraw : Table.Legible formats.draw titles)
    (helapsed : Table.IsWord host.totalElapsed) :
    Report host t (results t chosen) (emulated formats host a t chosen).stdout := by
  have hagree := Suite.passed_iff_of_mem_run ⟨compile t {}, .emulator⟩ chosen
  unfold emulated results
  generalize Suite.run ⟨compile t {}, .emulator⟩ chosen = results at hagree ⊢
  have hentries : List.Forall₂ Entry results (results.map verdict) := by
    rw [List.forall₂_map_right_iff, List.forall₂_same]
    exact fun r hr => entry_verdict (hagree r hr)
  have hpass := countP_isPass hentries
  have hfail := countP_isFail hentries
  have hlength : (results.map verdict).length = results.length := List.length_map verdict
  have hdifference : results.length - passedCount results = (results.map verdict).countP isFail := by
    omega
  refine ⟨results.map verdict, _, congrArg (· ++ _) List.flatMap_def, hentries, by omega, ?_⟩
  have hcells := isWord_of_mem_cells t helapsed (passedCount results)
    ((results.length - passedCount results : Nat) : Int)
  rw [hdraw _ (by simp [cells, titles]) hcells, hdifference, hlength, hpass, cells,
    ← Int.natCast_add, hfail]
  simp only [titles, List.cons_append, List.nil_append]

theorem code_emulated :
    (emulated formats host a t chosen).code =
      if ∀ r ∈ results t chosen, r.passed = true then 0 else 1 := by
  have hfailures := Suite.failures_eq_nil_iff
    (Suite.passed_iff_of_mem_run ⟨compile t {}, .emulator⟩ chosen)
  unfold emulated results
  simp only [hfailures]

end Emulation

theorem selected_eq_ok_iff {formats : Formats} {a : Arguments} {contents : Except FileError Text}
    {chosen : List Case} :
    selected formats a contents = .ok chosen ↔
      ∃ body cases, contents = .ok body ∧ Suite.accept (formats.decode body) = .ok cases ∧
        Suite.select cases a.operands = .ok chosen := by
  simp only [selected, Result.bind_eq_ok_iff, Result.mapError_eq_ok_iff]
  grind

/-- The usage is not printed for what is wrong with the cases. -/
theorem answer_eq_nil_of_selected {formats : Formats} {a : Arguments}
    {contents : Except FileError Text} {e : Error} (h : selected formats a contents = .error e) :
    e.answer = [] := by
  simp only [selected, Result.bind_eq_error_iff, Result.mapError_eq_error_iff] at h
  rcases h with ⟨_, _, rfl⟩ | ⟨_, _, ⟨_, _, rfl⟩ | ⟨_, _, _, _, rfl⟩⟩ <;> rfl

section Running

variable {σ : Type} (formats : Formats) (files : FileSystem (StateM σ)) (host : Host)
variable {args : List Text} (s : σ)

theorem selects_iff {a : Arguments} (hparse : Options.Leading.parse specs args = .ok a) {path : Text}
    {t : Target} {chosen : List Case} :
    Selects formats files host args s path t chosen ↔
      path = casesPath a ∧ Target.ofName (a.text "target" host.target.name) = .ok t ∧
        selected formats a (files.read (casesPath a) s).1 = .ok chosen := by
  rw [selected_eq_ok_iff]
  constructor
  · rintro ⟨a', body, cases, hparse', rfl, htarget, hselects⟩
    obtain rfl : a = a' := Except.ok.inj (hparse.symm.trans hparse')
    exact ⟨rfl, htarget, body, cases, hselects⟩
  · rintro ⟨rfl, htarget, body, cases, hselects⟩
    exact ⟨a, body, cases, hparse, rfl, htarget, hselects⟩

variable {formats files host s} in
/-- Arguments select one list of cases at most, of one file and for one target. -/
theorem Selects.unique {path path' : Text} {t t' : Target} {chosen chosen' : List Case}
    (h : Selects formats files host args s path t chosen)
    (h' : Selects formats files host args s path' t' chosen') :
    path = path' ∧ t = t' ∧ chosen = chosen' := by
  have ⟨a, _, _, hparse, _⟩ := h
  obtain ⟨rfl, htarget, hselected⟩ := (selects_iff formats files host s hparse).mp h
  obtain ⟨rfl, htarget', hselected'⟩ := (selects_iff formats files host s hparse).mp h'
  exact ⟨rfl, Except.ok.inj (htarget.symm.trans htarget'),
    Except.ok.inj (hselected.symm.trans hselected')⟩

/-- What comes of arguments that could be read: an error about the target or the cases, or
a report on the cases. -/
theorem perform_cases {a : Arguments} (hemulate : a.toggle "emulate" = true) :
    (∃ e, (perform formats files host a s).1 = .error e ∧ e.answer = [] ∧
      ∀ t chosen, Target.ofName (a.text "target" host.target.name) = .ok t →
        selected formats a (files.read (casesPath a) s).1 ≠ .ok chosen) ∨
    ∃ t chosen, Target.ofName (a.text "target" host.target.name) = .ok t ∧
      selected formats a (files.read (casesPath a) s).1 = .ok chosen ∧
      (perform formats files host a s).1 = .ok
        (if chosen = [] then { code := 0, stdout := "No cases found in " ++ casesPath a ++ "\n" }
        else emulated formats host a t chosen) := by
  unfold perform
  cases htarget : Target.ofName (a.text "target" host.target.name) with
  | error e => exact .inl ⟨.target e, rfl, rfl, by simp⟩
  | ok t =>
      simp only [state_bind_apply]
      cases hselected : selected formats a (files.read (casesPath a) s).1 with
      | error e => exact .inl ⟨e, rfl, answer_eq_nil_of_selected hselected, by simp⟩
      | ok chosen =>
          refine .inr ⟨t, chosen, rfl, rfl, ?_⟩
          cases chosen with
          | nil => rfl
          | cons c rest =>
              simp only [hemulate, if_true, reduceCtorEq, if_false]
              rfl

/-- Help is the only option with a letter, so without it none is given in both forms. -/
theorem oneForm_given (h : ∀ g ∈ Options.Leading.given specs args, g.name ≠ "help") :
    Options.Leading.OneForm (Options.Leading.given specs args) := by
  have hletters : ∀ spec ∈ specs, spec.letter ≠ none → spec.name = "help" := by decide
  have hname : ∀ g ∈ Options.Leading.given specs args, g.byLetter = false := by
    intro g hg
    rw [← Bool.not_eq_true]
    intro hletter
    obtain ⟨spec, hspec, hsame, hsome⟩ := Options.Leading.exists_letter_of_mem_given hg hletter
    exact h g hg (hsame ▸ hletters spec hspec hsome)
  intro g hg g' hg' _
  rw [hname g hg, hname g' hg']

/-- Without a call for help, arguments for the built-in machine are either refused with a
report of what is wrong, or select cases, which are run unless there are none. -/
theorem run_cases (hhelp : ∀ g ∈ Options.Leading.given specs args, g.name ≠ "help")
    (hemulate : ∀ a, Options.Leading.parse specs args = .ok a → a.toggle "emulate" = true) :
    (∃ report, (runWith formats files host args s).1 = { code := 1, stderr := report } ∧
      ∀ path t chosen, ¬ Selects formats files host args s path t chosen) ∨
    ∃ a t chosen,
      Selects formats files host args s (casesPath a) t chosen ∧
      (runWith formats files host args s).1 =
        if chosen = [] then { code := 0, stdout := "No cases found in " ++ casesPath a ++ "\n" }
        else emulated formats host a t chosen := by
  have hread := Options.Leading.parse_eq_read (oneForm_given hhelp)
  unfold runWith performArguments
  rw [state_bind_apply]
  cases hparse : Options.Leading.parse specs args with
  | error e =>
      have hanswer : Error.answer (.options e) = [] :=
        Options.Leading.answer_eq_nil_of_read (hread.symm.trans hparse) usage
      refine .inl ⟨"Error: " ++ e.message ++ "\n", ?_, ?_⟩
      · rw [← hanswer]
        rfl
      · rintro path t chosen ⟨a, _, _, ha, _⟩
        rw [hparse] at ha
        cases ha
  | ok a =>
      have htoggle : a.toggle "help" = false :=
        Arguments.toggle_of_not_given fun g hg =>
          hhelp g (Options.Leading.mem_given (hread.symm.trans hparse) hg)
      simp only [htoggle, Bool.false_eq_true, if_false]
      rcases perform_cases formats files host s (hemulate a hparse) with ⟨e, hfailed, hanswer, hnot⟩ |
        ⟨t, chosen, htarget, hselected, hdone⟩
      · refine .inl ⟨"Error: " ++ e.message ++ "\n", ?_, ?_⟩
        · rw [hfailed, ← hanswer]
          rfl
        · intro path t chosen hselects
          obtain ⟨_, htarget, hselected⟩ := (selects_iff formats files host s hparse).mp hselects
          exact hnot t chosen htarget hselected
      · refine .inr ⟨a, t, chosen, (selects_iff formats files host s hparse).mpr ⟨rfl, htarget, hselected⟩, ?_⟩
        rw [hdone]
        rfl

/-- The exit code and the report of the command are true, on any file system and in any
state of it, however case files are decoded. If the arguments select cases, then these are
reported one by one in the order of the selection, the summary counts what was reported,
and the command succeeds exactly if all of them have passed. It also succeeds if the
selection is empty, and says so. Otherwise it fails and prints no report. -/
theorem run_reports_truthfully (hdraw : Table.Legible formats.draw titles)
    (helapsed : Table.IsWord host.totalElapsed)
    (hhelp : ∀ g ∈ Options.Leading.given specs args, g.name ≠ "help")
    (hemulate : ∀ a, Options.Leading.parse specs args = .ok a → a.toggle "emulate" = true)
    {outcome : Outcome} {after : σ}
    (hrun : runWith formats files host args s = (outcome, after)) :
    (∀ path t chosen, Selects formats files host args s path t chosen →
      chosen ≠ [] →
      (results t chosen).map (·.case) = chosen ∧ Report host t (results t chosen) outcome.stdout ∧
      outcome.code = if ∀ r ∈ results t chosen, r.passed = true then 0 else 1) ∧
    (∀ path t, Selects formats files host args s path t [] →
      outcome.code = 0 ∧ outcome.stdout = "No cases found in " ++ path ++ "\n") ∧
    ((∀ path t chosen, ¬ Selects formats files host args s path t chosen) →
      outcome.code = 1 ∧ outcome.stdout = []) := by
  have houtcome : (runWith formats files host args s).1 = outcome := by rw [hrun]
  rcases run_cases formats files host s hhelp hemulate with ⟨report, hreport, hnot⟩ |
    ⟨a, t, chosen, hselects, hchosen⟩
  · obtain rfl := hreport.symm.trans houtcome
    refine ⟨?_, ?_, fun _ => ⟨rfl, rfl⟩⟩
    · intro path t chosen hselects
      exact absurd hselects (hnot path t chosen)
    · intro path t hselects
      exact absurd hselects (hnot path t [])
  · obtain rfl := hchosen.symm.trans houtcome
    refine ⟨?_, ?_, ?_⟩
    · intro path t' chosen' hselects' hne
      obtain ⟨_, rfl, rfl⟩ := hselects.unique hselects'
      rw [if_neg hne]
      exact ⟨by simp [results, Suite.run, Function.comp_def],
        report_emulated a t chosen hdraw helapsed, code_emulated a t chosen⟩
    · intro path t' hselects'
      obtain ⟨rfl, _, rfl⟩ := hselects.unique hselects'
      exact ⟨rfl, rfl⟩
    · intro hnot
      exact absurd hselects (hnot _ _ _)

end Running

/-- A case with a status out of range, and one that cannot be compiled and is not meant
to be. -/
def casesText : Text :=
  "cases:\n- name: 1_open\n  input: (1\n  error: true\n- name: 2_wide\n  input: 16*16\n  status: 256\n"

def casesDirectory : Directory := .ofFiles [("c.yaml", casesText)]

def twiceArguments : List Text := ["--emulate", "--cases=c.yaml", "2", "1_open", "2"]

def twiceReading : Arguments where
  settings := [⟨"emulate", false, .toggle true⟩, ⟨"cases", false, .text "c.yaml"⟩]
  operands := ["2", "1_open", "2"]

theorem parse_twiceArguments : Options.Leading.parse specs twiceArguments = .ok twiceReading := by
  apply Result.eq_ok_of_toOption
  decide +kernel

/-- A host on which a run takes three milliseconds. -/
def timedHost : Host :=
  { Run.linuxHost with totalElapsed := (Duration.mk 3000000).text }

theorem selects_twiceArguments :
    Selects .standard Directory.fileSystem timedHost twiceArguments casesDirectory "c.yaml"
      .aarch64Linux [Suite.wideCase, Suite.openCase, Suite.wideCase] := by
  have htarget : Target.ofName (twiceReading.text "target" timedHost.target.name) =
      .ok .aarch64Linux := by
    apply Result.eq_ok_of_toOption
    decide +kernel
  have hread : (Directory.fileSystem.read "c.yaml" casesDirectory).1 = .ok casesText := by
    apply Result.eq_ok_of_toOption
    decide +kernel
  have hcases : Suite.accept (Formats.standard.decode casesText) =
      .ok [Suite.openCase, Suite.wideCase] := by
    apply Result.eq_ok_of_toOption
    decide +kernel
  have hselect : Suite.select [Suite.openCase, Suite.wideCase] twiceReading.operands =
      .ok [Suite.wideCase, Suite.openCase, Suite.wideCase] := by
    decide
  exact ⟨twiceReading, casesText, _, parse_twiceArguments, by decide +kernel, htarget, hread,
    hcases, hselect⟩

/-- A case that is selected twice is reported twice, and its failure is seen in the exit
code. -/
theorem run_twiceArguments :
    ∃ outcome after,
      run Directory.fileSystem timedHost twiceArguments casesDirectory = (outcome, after) ∧
      outcome.code = 1 ∧
      Report timedHost .aarch64Linux
        (results .aarch64Linux [Suite.wideCase, Suite.openCase, Suite.wideCase]) outcome.stdout := by
  have hdraw : Table.Legible Formats.standard.draw titles := Table.legible_render (by decide)
  have helapsed : Table.IsWord timedHost.totalElapsed := Duration.isWord_text ⟨3000000⟩
  have hhelp : ∀ g ∈ Options.Leading.given specs twiceArguments, g.name ≠ "help" := by
    decide +kernel
  have hemulate : ∀ a, Options.Leading.parse specs twiceArguments = .ok a →
      a.toggle "emulate" = true := by
    intro a ha
    obtain rfl := Except.ok.inj (parse_twiceArguments.symm.trans ha)
    decide +kernel
  have hclear : Suite.Clear Suite.wideCase := rfl
  have hwide := hclear.passed_eq_false .aarch64Linux {} rfl (.inr (by decide))
  cases hrun : run Directory.fileSystem timedHost twiceArguments casesDirectory with
  | mk outcome after =>
      obtain ⟨hreports, _⟩ := run_reports_truthfully .standard Directory.fileSystem timedHost
        casesDirectory hdraw helapsed hhelp hemulate hrun
      obtain ⟨_, hreport, hcode⟩ := hreports _ _ _ selects_twiceArguments (by simp)
      refine ⟨outcome, after, rfl, ?_, hreport⟩
      rw [hcode, if_neg]
      intro hall
      have hpassed := hall _ (List.mem_map_of_mem List.mem_cons_self)
      rw [hwide] at hpassed
      cases hpassed

end ArithAsm.Command.Check
