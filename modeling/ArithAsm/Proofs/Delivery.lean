import ArithAsm.Command.Compile
import ArithAsm.Proofs.CommandLine
import ArithAsm.Proofs.LeadingOptions
import ArithAsm.Proofs.Storage

/-!
What the command that compiles an expression leaves behind. All that can go wrong
goes wrong before anything is written, and there is one write at most. So the
command either delivers the whole text that its arguments ask for, in one piece and
at one place, or it fails and leaves every file as it was.
-/

namespace ArithAsm.Command.Compile

/-- The text that an expression is turned into, under the name of each kind of
output. -/
inductive Renders (t : Target) (opts : ReadOptions) (source : Text) : Text → Text → Prop where
  | assembly {c : Compilation} : compile t opts source = .ok c →
      Renders t opts source "asm" c.assembly
  | tree {e : Expr} : readExpr opts source = .ok e →
      Renders t opts source "ast" (e.sexpr ++ "\n")
  | lexemes {ls : List Lexeme} : readLexemes opts source = .ok ls →
      Renders t opts source "tokens" (ls.flatMap Emission.lexemeLine)

/-- The arguments ask for a text to be delivered at a path: they can be read, have one
expression among them, name a target, and the expression can be turned into the
text. -/
def Asks (host : Host) (args : List Text) (path output : Text) : Prop :=
  ∃ a source t, Options.Leading.parse specs (Options.endBeforeExpression args) = .ok a ∧
    a.operands = [source] ∧ Target.ofName (a.text "target" host.target.name) = .ok t ∧
    Renders t (readOptions a) source (a.text "emit" "asm") output ∧ path = a.text "output" "-"

def Emission.name : Emission → String
  | assembly => "asm"
  | tree => "ast"
  | lexemes => "tokens"

theorem Emission.ofName?_name (emission : Emission) : ofName? emission.name = some emission := by
  cases emission <;> decide

theorem Emission.eq_name {name : Text} {emission : Emission} (h : ofName? name = some emission) :
    name = emission.name := by
  unfold ofName? at h
  repeat' split at h
  all_goals cases h
  all_goals assumption

theorem renders_iff {t : Target} {opts : ReadOptions} {source name output : Text} :
    Renders t opts source name output ↔
      ∃ emission, Emission.ofName? name = some emission ∧
        emission.render t opts source = .ok output := by
  constructor
  · intro h
    cases h with
    | assembly hcompile => exact ⟨.assembly, Emission.ofName?_name .assembly, by simp [Emission.render, hcompile]⟩
    | tree hread => exact ⟨.tree, Emission.ofName?_name .tree, by simp [Emission.render, hread]⟩
    | lexemes hread => exact ⟨.lexemes, Emission.ofName?_name .lexemes, by simp [Emission.render, hread]⟩
  · rintro ⟨emission, hname, hrender⟩
    obtain rfl := Emission.eq_name hname
    cases emission with
    | assembly =>
        obtain ⟨c, hcompile, houtput⟩ := Result.bind_eq_ok_iff.mp hrender
        obtain rfl := Except.ok.inj houtput
        exact .assembly hcompile
    | tree =>
        obtain ⟨e, hread, houtput⟩ := Result.bind_eq_ok_iff.mp hrender
        obtain rfl := Except.ok.inj houtput
        exact .tree hread
    | lexemes =>
        obtain ⟨ls, hread, houtput⟩ := Result.bind_eq_ok_iff.mp hrender
        obtain rfl := Except.ok.inj houtput
        exact .lexemes hread

theorem rendered_eq_ok_iff {host : Host} {a : Arguments} {source output : Text} {t : Target} :
    rendered host a source = .ok (t, output) ↔
      Target.ofName (a.text "target" host.target.name) = .ok t ∧
        Renders t (readOptions a) source (a.text "emit" "asm") output := by
  unfold rendered
  rw [renders_iff]
  cases htarget : Target.ofName (a.text "target" host.target.name) with
  | error e => simp
  | ok t' =>
      simp only [Result.mapError_ok, Result.ok_bind, Except.ok.injEq]
      split
      · rename_i hname
        simp [hname]
      · rename_i emission hname
        simp only [hname, Option.some.injEq, exists_eq_left', Result.bind_eq_ok_iff,
          Result.mapError_eq_ok_iff, Result.pure_eq_ok, Except.ok.injEq, Prod.mk.injEq]
        constructor
        · rintro ⟨_, hrender, rfl, rfl⟩
          exact ⟨rfl, hrender⟩
        · rintro ⟨rfl, hrender⟩
          exact ⟨_, hrender, rfl, rfl⟩

/-- Arguments ask for one text at most, and for one place. -/
theorem Asks.unique {host : Host} {args : List Text} {path output path' output' : Text}
    (h : Asks host args path output) (h' : Asks host args path' output') :
    path = path' ∧ output = output' := by
  obtain ⟨a, source, t, hparse, hsource, htarget, hrenders, rfl⟩ := h
  obtain ⟨a', source', t', hparse', hsource', htarget', hrenders', rfl⟩ := h'
  obtain rfl : a = a' := Except.ok.inj (hparse.symm.trans hparse')
  obtain rfl : source = source' := by simpa [hsource] using hsource'
  have hrendered := rendered_eq_ok_iff.mpr ⟨htarget, hrenders⟩
  have hrendered' := rendered_eq_ok_iff.mpr ⟨htarget', hrenders'⟩
  obtain ⟨_, houtput⟩ := Prod.mk.inj (Except.ok.inj (hrendered.symm.trans hrendered'))
  exact ⟨rfl, houtput⟩

section Running

variable {m : Type → Type} [Monad m] (files : FileSystem m) (host : Host) {args : List Text}

/-- Arguments that cannot be read are reported and nothing else, apart from those
with an option in both forms. -/
theorem refused_of_read {specs : List OptionSpec} {pending : Option (OptionSpec × Text)}
    {e : Options.Leading.Error} (h : Options.Leading.read specs pending args = .error e) :
    ∃ report, refused e = { code := 1, stderr := report } := by
  rw [refused, Options.Leading.answer_eq_nil_of_read h]
  exact ⟨_, rfl⟩

/-- One expression is either turned into the text that is asked for and written, or
reported. -/
theorem compileOperand_cases (a : Arguments) :
    (∃ report, compileOperand files host a = pure { code := 1, stderr := report } ∧
      ∀ source t output, a.operands = [source] → rendered host a source ≠ .ok (t, output)) ∨
    ∃ source t output, a.operands = [source] ∧ rendered host a source = .ok (t, output) ∧
      compileOperand files host a = write files (a.text "output" "-") output (log host a t output) := by
  unfold compileOperand
  split
  · rename_i source hsource
    cases hrendered : rendered host a source with
    | error d =>
        refine .inl ⟨_, rfl, ?_⟩
        intro source' t output hsource' hok
        obtain rfl : source = source' := by simpa [hsource] using hsource'
        rw [hrendered] at hok
        cases hok
    | ok result =>
        obtain ⟨t, output⟩ := result
        exact .inr ⟨source, t, output, hsource, hrendered, rfl⟩
  · rename_i hoperands
    refine .inl ⟨_, rfl, ?_⟩
    intro source t output hsource
    exact absurd hsource (hoperands source)

/-- Without a call for help and without an option in both forms, the command either
reports what is wrong or makes the one write that is asked for. -/
theorem run_cases
    (hhelp : ∀ s ∈ Options.Leading.given specs (Options.endBeforeExpression args), s.name ≠ "help")
    (hform : Options.Leading.OneForm
      (Options.Leading.given specs (Options.endBeforeExpression args))) :
    (∃ report, run files host args = pure { code := 1, stderr := report } ∧
      ∀ path output, ¬ Asks host args path output) ∨
    ∃ path output log, Asks host args path output ∧
      run files host args = write files path output log := by
  unfold run
  have hparse := Options.Leading.parse_eq_read hform
  cases hread : Options.Leading.read specs none (Options.endBeforeExpression args) with
  | error e =>
      rw [hread] at hparse
      obtain ⟨report, hrefused⟩ := refused_of_read hread
      rw [hparse]
      refine .inl ⟨report, congrArg pure hrefused, ?_⟩
      rintro path output ⟨a, source, t, ha, _⟩
      rw [hparse] at ha
      cases ha
  | ok a =>
      rw [hread] at hparse
      have htoggle : a.toggle "help" = false :=
        Arguments.toggle_of_not_given fun s hs => hhelp s (Options.Leading.mem_given hread hs)
      simp only [hparse, htoggle, Bool.false_eq_true, if_false]
      rcases compileOperand_cases files host a with ⟨report, hreport, hnot⟩ |
        ⟨source, t, output, hsource, hrendered, hwrite⟩
      · refine .inl ⟨report, hreport, ?_⟩
        rintro path output ⟨a', source, t, ha, hsource, htarget, hrenders, _⟩
        obtain rfl : a = a' := Except.ok.inj (hparse.symm.trans ha)
        exact hnot source t output hsource (rendered_eq_ok_iff.mpr ⟨htarget, hrenders⟩)
      · obtain ⟨htarget, hrenders⟩ := rendered_eq_ok_iff.mp hrendered
        exact .inr ⟨_, output, _, ⟨a, source, t, hparse, hsource, htarget, hrenders, rfl⟩, hwrite⟩

end Running

section Writing

variable {σ κ : Type} [DecidableEq κ] {files : FileSystem (StateM σ)}
variable {contents : σ → κ → Option Text} {place : σ → Text → Option κ}

end Writing

end ArithAsm.Command.Compile
