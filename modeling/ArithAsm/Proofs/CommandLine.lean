import ArithAsm.Proofs.Compilation
import ArithAsm.Proofs.Conventions

/-!
From the arguments of the command to its outcome. An expression that is run on
the built-in machine prints the low byte of its value; whatever goes wrong, the
command fails and prints nothing. A signed expression needs no dashes before it. All
this rests on the conventions for options, and not on how they are read.
-/

namespace ArithAsm

namespace Arguments

/-- An option given in front counts only where no later one has its name. -/
theorem value?_add (s : Setting) (a : Arguments) (name : String) :
    (a.add s).value? name =
      (a.value? name).or (if s.name = name then some s.value else none) := by
  by_cases h : s.name = name <;>
    simp [value?, add, List.find?_append, h]

end Arguments

namespace Options

theorem endBeforeExpression_append {before : List Text}
    (h : ∀ arg ∈ before, arg ≠ "--" ∧ isSigned arg = false) (rest : List Text) :
    endBeforeExpression (before ++ rest) = before ++ endBeforeExpression rest := by
  induction before with
  | nil => rfl
  | cons arg before ih =>
      obtain ⟨hdashes, hsigned⟩ := h arg List.mem_cons_self
      have hbefore := ih fun arg' harg' => h arg' (List.mem_cons_of_mem arg harg')
      simp [endBeforeExpression, hdashes, hsigned, hbefore]

theorem isSigned_of_signs {signs rest : Text} {b : UInt8} (hsigns : signs ≠ [])
    (hall : ∀ s ∈ signs, s = 43 ∨ s = 45) (hb : Decimal.isDigit b = true ∨ b = 40) :
    isSigned (signs ++ b :: rest) = true := by
  have hplus : b ≠ 43 := by
    rintro rfl
    revert hb
    decide
  have hminus : b ≠ 45 := by
    rintro rfl
    revert hb
    decide
  have hdrop : ∀ more : Text, (∀ s ∈ more, s = 43 ∨ s = 45) →
      (more ++ b :: rest).dropWhile (fun s => s == 43 || s == 45) = b :: rest := by
    intro more hmore
    rw [List.dropWhile_append_of_pos (by simpa using hmore)]
    simp [hplus, hminus]
  cases signs with
  | nil => exact absurd rfl hsigns
  | cons s signs =>
      have hs := hall s List.mem_cons_self
      have hmore := hdrop signs fun s' hs' => hall s' (List.mem_cons_of_mem s hs')
      simpa [isSigned, hmore, hs] using hb

theorem endBeforeExpression_signed {arg : Text} (h : isSigned arg = true) (after : List Text) :
    endBeforeExpression (arg :: after) = Text.ofString "--" :: arg :: after := by
  have hdashes : arg ≠ "--" := by
    rintro rfl
    revert h
    decide
  simp [endBeforeExpression, hdashes, h]

end Options

theorem Target.ofName_of_mem_names {t : Target} {name : String} (h : name ∈ t.names) :
    ofName name = .ok t := by
  have hname : ofName? name = some t := by
    cases t <;> revert name <;> decide
  rw [ofName, hname]

namespace Command.Run

/-- The options that choose how an expression is read. -/
inductive ReadFlag where
  | checkedNumbers
  | allowTrailing
  deriving DecidableEq, Repr

namespace ReadFlag

def name : ReadFlag → String
  | checkedNumbers => "checked-numbers"
  | allowTrailing => "allow-trailing"

def argument (f : ReadFlag) : Text := "--" ++ Text.ofString f.name

def setting (f : ReadFlag) : Setting := ⟨f.name, false, .toggle true⟩

def options (flags : List ReadFlag) : ReadOptions :=
  ⟨decide (.allowTrailing ∈ flags), decide (.checkedNumbers ∈ flags)⟩

end ReadFlag

/-- The arguments that ask for a run on the built-in machine, with others
behind them. -/
def emulation (target : String) (flags : List ReadFlag) (rest : List Text) : List Text :=
  "run" :: "--emulate" :: "-t" :: target :: (flags.map ReadFlag.argument ++ rest)

theorem endBeforeExpression_emulation {t : Target} {name : String} (hname : name ∈ t.names)
    (flags : List ReadFlag) (rest : List Text) :
    Options.endBeforeExpression (emulation name flags rest) =
      emulation name flags (Options.endBeforeExpression rest) := by
  have htarget : Text.ofString name ≠ "--" ∧ Options.isSigned name = false := by
    cases t <;> revert name <;> decide
  have hbefore : ∀ arg ∈ emulation name flags [], arg ≠ "--" ∧ Options.isSigned arg = false := by
    simp only [emulation, List.append_nil, List.forall_mem_cons]
    refine ⟨by decide, by decide, by decide, htarget, ?_⟩
    intro arg harg
    obtain ⟨f, _, rfl⟩ := List.mem_map.mp harg
    cases f <;> decide
  simpa [emulation] using Options.endBeforeExpression_append hbefore rest

/-- What is read from the flags and the expression behind them. -/
def flagArguments (flags : List ReadFlag) (source : Text) : Arguments :=
  ⟨flags.map ReadFlag.setting, [source]⟩

def emulationArguments (target : String) (flags : List ReadFlag) (source : Text) : Arguments :=
  ((flagArguments flags source).add ⟨"target", true, .text target⟩).add
    ⟨"emulate", false, .toggle true⟩

theorem value?_flagArguments (flags : List ReadFlag) (source : Text) (name : String) :
    (flagArguments flags source).value? name =
      if name ∈ flags.map ReadFlag.name then some (.toggle true) else none := by
  induction flags with
  | nil => rfl
  | cons f flags ih =>
      have hcons : flagArguments (f :: flags) source =
          (flagArguments flags source).add f.setting := rfl
      rw [hcons, Arguments.value?_add, ih, List.map_cons]
      by_cases hflags : name ∈ flags.map ReadFlag.name
      · rw [if_pos hflags, if_pos (List.mem_cons_of_mem f.name hflags), Option.some_or]
      · simp only [hflags, if_false, Option.none_or, List.mem_cons, or_false, ReadFlag.setting,
          eq_comm]

theorem ReadFlag.name_mem_map {f : ReadFlag} {flags : List ReadFlag} :
    f.name ∈ flags.map ReadFlag.name ↔ f ∈ flags := by
  constructor
  · intro h
    obtain ⟨g, hg, hname⟩ := List.mem_map.mp h
    obtain rfl : g = f := by
      revert hname
      cases g <;> cases f <;> decide
    exact hg
  · exact List.mem_map_of_mem

section Values

variable (target : String) (flags : List ReadFlag) (source : Text)

theorem toggle_flag (f : ReadFlag) :
    (emulationArguments target flags source).toggle f.name = decide (f ∈ flags) := by
  have htarget : "target" ≠ f.name := by cases f <;> decide
  have hemulate : "emulate" ≠ f.name := by cases f <;> decide
  simp only [Arguments.toggle, emulationArguments, Arguments.value?_add, value?_flagArguments,
    ReadFlag.name_mem_map, htarget, hemulate, if_false, Option.or_none]
  by_cases hf : f ∈ flags <;> simp [hf]

/-- A name that belongs to none of the flags keeps the value given in front. -/
theorem value?_of_ne {name : String} (hname : ∀ f : ReadFlag, f.name ≠ name) :
    (emulationArguments target flags source).value? name =
      (if "target" = name then some (.text target) else none).or
        (if "emulate" = name then some (.toggle true) else none) := by
  have hflags : name ∉ flags.map ReadFlag.name := by
    intro h
    obtain ⟨f, _, hf⟩ := List.mem_map.mp h
    exact hname f hf
  simp only [emulationArguments, Arguments.value?_add, value?_flagArguments, hflags, if_false,
    Option.none_or]

theorem toggle_emulate : (emulationArguments target flags source).toggle "emulate" = true := by
  rw [Arguments.toggle, value?_of_ne _ _ _ (by intro f; cases f <;> decide)]
  rfl

theorem text_target (default : Text) :
    (emulationArguments target flags source).text "target" default = target := by
  rw [Arguments.text, value?_of_ne _ _ _ (by intro f; cases f <;> decide)]
  rfl

end Values

/-- The arguments for a run on the built-in machine, one option after the other. -/
theorem written_emulation (target : String) (flags : List ReadFlag) (source : Text) :
    List.Forall₂ (Options.Written (Subcommand.run.specs ++ sharedSpecs ++ [helpSpec]))
      (emulationArguments target flags source).settings
      (["--emulate"] :: ["-t", (target : Text)] :: flags.map fun f => [f.argument]) := by
  refine .cons ?_ (.cons ?_ ?_)
  · exact .toggle (s := { name := "emulate", kind := .toggle }) (by decide) rfl
  · exact .lettered (s := { name := "target", letter := some 116, kind := .text }) target
      (by decide) rfl rfl
  · rw [flagArguments, List.forall₂_map_left_iff, List.forall₂_map_right_iff, List.forall₂_same]
    intro f _
    cases f with
    | checkedNumbers =>
        exact .toggle (s := { name := "checked-numbers", kind := .toggle }) (by decide) rfl
    | allowTrailing =>
        exact .toggle (s := { name := "allow-trailing", kind := .toggle }) (by decide) rfl

theorem interpret_emulation {interpret : List Text → Except Text Request}
    (hinterpret : Conventional interpret) (target : String) (flags : List ReadFlag)
    (source : Text) :
    interpret (emulation target flags ["--", source]) =
      .ok (.perform .run (emulationArguments target flags source)) := by
  have hhelp : ∀ g ∈ (emulationArguments target flags source).settings, g.name ≠ "help" := by
    simp only [emulationArguments, flagArguments, Arguments.add, List.forall_mem_cons]
    refine ⟨by decide, by decide, ?_⟩
    intro g hg
    obtain ⟨f, _, rfl⟩ := List.mem_map.mp hg
    cases f <;> decide
  have hflags : (flags.map fun f => [f.argument]).flatten = flags.map ReadFlag.argument := by
    rw [← List.flatMap_def, ← List.map_eq_flatMap]
  have hread := hinterpret .run (by decide) _ _ [source] (written_emulation target flags source)
    hhelp
  rw [List.flatten_cons, List.flatten_cons, hflags] at hread
  exact hread

theorem compileSource_emulation (host : Host) {t : Target} {name : String}
    (hname : name ∈ t.names) (flags : List ReadFlag) (source : Text) :
    compileSource host (emulationArguments name flags source) source =
      (compile t (ReadFlag.options flags) source).mapError .ofCompileError := by
  have htarget := Target.ofName_of_mem_names hname
  have htrailing := toggle_flag name flags source .allowTrailing
  have hchecked := toggle_flag name flags source .checkedNumbers
  simp only [ReadFlag.name] at htrailing hchecked
  simp only [compileSource, text_target, htarget, htrailing, hchecked]
  rfl

theorem emulate_of_run {c : Compilation} {v : Int64} (h : c.program.run = .ok v) :
    emulate c =
      { code := 0, stdout := Text.ofString (toString (v.toInt % 256).toNat) ++ "\n" } := by
  rw [emulate, Executor.emulator, h]
  simp only [exitStatus, Decimal.ofInt_natCast]

theorem emulate_of_run_error {c : Compilation} {err : RunError} (h : c.program.run = .error err) :
    ∃ report, emulate c = { code := 1, stderr := report } := by
  rw [emulate, Executor.emulator, h]
  exact ⟨_, rfl⟩

section Outcomes

variable {m : Type → Type} [Monad m] {interpret : List Text → Except Text Request}
variable (hinterpret : Conventional interpret) (files : FileSystem m) (host : Host)
variable {t : Target} {name : String} (hname : name ∈ t.names) (flags : List ReadFlag)
include hname

theorem run_emulation_of_signed {source : Text} (h : Options.isSigned source = true) :
    runWith interpret files host (emulation name flags [source]) =
      runWith interpret files host (emulation name flags ["--", source]) := by
  have hargs : Options.endBeforeExpression (emulation name flags [source]) =
      Options.endBeforeExpression (emulation name flags ["--", source]) := by
    rw [endBeforeExpression_emulation hname, endBeforeExpression_emulation hname,
      Options.endBeforeExpression_signed h []]
    rfl
  rw [runWith, runWith, hargs]

include hinterpret

theorem run_emulation (source : Text) :
    runWith interpret files host (emulation name flags ["--", source]) =
      match compile t (ReadFlag.options flags) source with
      | .ok c => pure (emulate c)
      | .error err => pure (.reported source (.ofCompileError err)) := by
  have hargs : Options.endBeforeExpression (emulation name flags ["--", source]) =
      emulation name flags ["--", source] :=
    endBeforeExpression_emulation hname flags ["--", source]
  have hoperands : (emulationArguments name flags source).operands = [source] := rfl
  simp only [runWith, hargs, interpret_emulation hinterpret, perform, hoperands,
    compileSource_emulation host hname, toggle_emulate]
  cases compile t (ReadFlag.options flags) source <;> rfl

variable {source : Text}

theorem run_emulation_of_value {e : Expr} {v : Int64}
    (he : readExpr (ReadFlag.options flags) source = .ok e) (hv : t.value? e = some v) :
    runWith interpret files host (emulation name flags ["--", source]) =
      pure { code := 0, stdout := Text.ofString (toString (v.toInt % 256).toNat) ++ "\n" } := by
  obtain ⟨c, hcompile, hrun⟩ := compile_of_readExpr he t
  have hc : c.program.run = .ok v := (hrun v).mpr hv
  rw [run_emulation hinterpret files host hname, hcompile]
  exact congrArg pure (emulate_of_run hc)

theorem run_emulation_of_no_value
    (h : ∀ e, readExpr (ReadFlag.options flags) source = .ok e → t.value? e = none) :
    ∃ report, runWith interpret files host (emulation name flags ["--", source]) =
      pure { code := 1, stderr := report } := by
  rw [run_emulation hinterpret files host hname]
  cases he : readExpr (ReadFlag.options flags) source with
  | error err =>
      rw [compile_of_readExpr_error he]
      exact ⟨_, rfl⟩
  | ok e =>
      obtain ⟨c, hcompile, hrun⟩ := compile_of_readExpr he t
      rw [hcompile]
      cases hc : c.program.run with
      | ok v =>
          have hv : t.value? e = some v := (hrun v).mp hc
          rw [h e he] at hv
          cases hv
      | error err =>
          obtain ⟨report, hreport⟩ := emulate_of_run_error hc
          exact ⟨report, congrArg pure hreport⟩

end Outcomes

/-- Running an expression on the built-in machine prints the low byte of the
value that the target gives it. A text that is no expression and an expression
without a value make the command fail, with nothing printed. Before a signed
expression the dashes can be left out. How the arguments are read does not matter, as
long as it keeps to the convention. -/
theorem run_emulation_outcome {m : Type → Type} [Monad m]
    {interpret : List Text → Except Text Request} (hinterpret : Conventional interpret)
    (files : FileSystem m) (host : Host) {t : Target} {name : String} (hname : name ∈ t.names)
    (flags : List ReadFlag) (source : Text) :
    (∀ e v, readExpr (ReadFlag.options flags) source = .ok e → t.value? e = some v →
      runWith interpret files host (emulation name flags ["--", source]) =
        pure { code := 0, stdout := Text.ofString (toString (v.toInt % 256).toNat) ++ "\n" }) ∧
    ((∀ e, readExpr (ReadFlag.options flags) source = .ok e → t.value? e = none) →
      ∃ report, runWith interpret files host (emulation name flags ["--", source]) =
        pure { code := 1, stderr := report }) ∧
    (∀ signs b rest, source = signs ++ b :: rest → signs ≠ [] →
      (∀ s ∈ signs, s = 43 ∨ s = 45) → (Decimal.isDigit b = true ∨ b = 40) →
      runWith interpret files host (emulation name flags [source]) =
        runWith interpret files host (emulation name flags ["--", source])) := by
  refine ⟨?_, run_emulation_of_no_value hinterpret files host hname flags, ?_⟩
  · intro e v he hv
    exact run_emulation_of_value hinterpret files host hname flags he hv
  · rintro signs b rest rfl hsigns hall hb
    exact run_emulation_of_signed files host hname flags
      (Options.isSigned_of_signs hsigns hall hb)

/-- A product whose value is negative, with a parenthesis too many. -/
def trailedProduct : Text := "-(3+4)*37 )"

def trailedProductExpr : Expr :=
  .binary ⟨1, 7, 6⟩ .mul
    (.binary ⟨1, 1, 0⟩ .sub (.number ⟨1, 1, 0⟩ 0)
      (.binary ⟨1, 4, 3⟩ .add (.number ⟨1, 3, 2⟩ 3) (.number ⟨1, 5, 4⟩ 4)))
    (.number ⟨1, 8, 7⟩ 37)

def linuxHost : Host where
  target := .aarch64Linux
  toolchain := .ofHost "linux" "arm64"
  logTime := []
  logElapsed := []
  totalElapsed := []

/-- The value is -259, and 253 is its low byte. -/
theorem run_emulation_trailedProduct :
    run Directory.fileSystem linuxHost
        (emulation "amd64-linux" [.allowTrailing] [trailedProduct]) =
      pure { code := 0, stdout := "253\n" } ∧
    ∃ report, run Directory.fileSystem linuxHost
        (emulation "amd64-linux" [.checkedNumbers] ["--", trailedProduct]) =
      pure { code := 1, stderr := report } := by
  have htarget : "amd64-linux" ∈ Target.x86_64Linux.names := by decide
  have hread : readExpr (ReadFlag.options [.allowTrailing]) trailedProduct =
      .ok trailedProductExpr := by with_unfolding_all rfl
  have hstrict :
      (readExpr (ReadFlag.options [.checkedNumbers]) trailedProduct).toOption = none := by
    decide +kernel
  have hvalue : Target.x86_64Linux.value? trailedProductExpr = some (-259) := by decide +kernel
  have hbyte : Text.ofString (toString ((-259 : Int64).toInt % 256).toNat) ++ "\n" =
      Text.ofString "253\n" := by decide
  obtain ⟨hprints, _, hdashes⟩ := run_emulation_outcome conventional_request
    Directory.fileSystem linuxHost htarget [.allowTrailing] trailedProduct
  obtain ⟨_, hfails, _⟩ := run_emulation_outcome conventional_request
    Directory.fileSystem linuxHost htarget [.checkedNumbers] trailedProduct
  refine ⟨?_, hfails ?_⟩
  · rw [run, hdashes [45] 40 "3+4)*37 )" (by decide) (by decide) (by simp) (by simp),
      hprints _ _ hread hvalue, hbyte]
  · intro e he
    rw [he] at hstrict
    cases hstrict

end Command.Run

end ArithAsm
