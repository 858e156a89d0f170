import ArithAsm.Options.Leading
import ArithAsm.Proofs.Result
import Mathlib.Data.List.Infix

/-!
Which options a command is given. Arguments are read from left to right, so an
option that was read counts as given even if a later argument cannot be read. The
arguments are refused for an option under both its names only if both were given.
-/

namespace ArithAsm

namespace Options.Leading

/-- The options that some beginning of the arguments sets. -/
def given (specs : List OptionSpec) (args : List Text) : List Setting :=
  args.inits.flatMap fun before =>
    match read specs none before with
    | .ok a => a.settings
    | .error _ => []

/-- No option is given by its name and by its letter. -/
def OneForm (settings : List Setting) : Prop :=
  ∀ s ∈ settings, ∀ t ∈ settings, s.name = t.name → s.byLetter = t.byLetter

instance (settings : List Setting) : Decidable (OneForm settings) :=
  inferInstanceAs (Decidable (∀ s ∈ settings, ∀ t ∈ settings, s.name = t.name → _))

variable {specs : List OptionSpec} {args : List Text} {a : Arguments}

theorem mem_given (h : read specs none args = .ok a) {s : Setting} (hs : s ∈ a.settings) :
    s ∈ given specs args := by
  apply List.mem_flatMap.mpr
  refine ⟨args, by simp, ?_⟩
  rw [h]
  exact hs

/-- Only the value of an option can be wrong with it. -/
theorem error_of_setting {s : OptionSpec} {name value : Text} {e : Error}
    (h : setting s name value = .error e) :
    e = .invalidToggle value name ∨ ∃ reason, e = .invalidInteger value name reason := by
  rcases Result.bind_eq_error_iff.mp h with h | ⟨_, _, h⟩
  · unfold valueOf at h
    grind
  · cases h

theorem read_ne_twoForms {pending : Option (OptionSpec × Text)} {letter : UInt8} {both : String} :
    read specs pending args ≠ .error (.twoForms letter both) := by
  have hset {s : OptionSpec} {name value : Text} {rest : List Text}
      (hrest : read specs none rest ≠ .error (.twoForms letter both)) :
      (do
        let given ← setting s name value
        return (← read specs none rest).add given) ≠ .error (.twoForms letter both) := by
    intro h
    rcases Result.bind_eq_error_iff.mp h with h | ⟨_, _, h⟩
    · rcases error_of_setting h with h | ⟨_, h⟩ <;> cases h
    · rcases Result.bind_eq_error_iff.mp h with h | ⟨_, _, h⟩
      · exact hrest h
      · cases h
  fun_induction read specs pending args with
  | case3 _ _ _ _ ih | case8 _ _ _ _ _ _ _ ih | case9 _ _ _ _ _ _ _ ih => exact hset ih
  | case10 _ _ _ _ _ _ _ ih => exact ih
  | case1 | case2 | case4 | case5 | case6 | case7 => simp

/-- The usage is printed only if the arguments as such can be read. -/
theorem answer_eq_nil_of_read {pending : Option (OptionSpec × Text)} {e : Error}
    (h : read specs pending args = .error e) (usage : Text) : e.answer usage = [] := by
  cases e with
  | twoForms letter both => exact absurd h read_ne_twoForms
  | _ => rfl

/-- Unless an option is given in both forms, the arguments are read or refused as
their reading says. -/
theorem parse_eq_read (h : OneForm (given specs args)) : parse specs args = read specs none args := by
  unfold parse
  cases hread : read specs none args with
  | error e => rfl
  | ok a =>
      have hnone : (specs.find? fun s => usedAs a s false && usedAs a s true) = none := by
        rw [List.find?_eq_none]
        intro spec _ hboth
        simp only [usedAs, Bool.and_eq_true, List.any_eq_true, decide_eq_true_eq, beq_iff_eq] at hboth
        obtain ⟨⟨s, hs, hname, hform⟩, t, ht, hname', hform'⟩ := hboth
        have hsame := h s (mem_given hread hs) t (mem_given hread ht) (hname.trans hname'.symm)
        rw [hform, hform'] at hsame
        cases hsame
      simp [hnone]

/-- What holds of every setting of an option that is known holds of all settings that
are read. -/
theorem forall_settings_of_read {P : Setting → Prop}
    (hsetting : ∀ spec ∈ specs, ∀ name value s, setting spec name value = .ok s → P s)
    {pending : Option (OptionSpec × Text)} (hpending : ∀ p ∈ pending, p.1 ∈ specs)
    (h : read specs pending args = .ok a) : ∀ s ∈ a.settings, P s := by
  have hset {spec : OptionSpec} {name value : Text} {rest : List Text} {a : Arguments}
      (hspec : spec ∈ specs)
      (hrest : ∀ {a}, read specs none rest = .ok a → ∀ s ∈ a.settings, P s)
      (h : (do
        let given ← setting spec name value
        return (← read specs none rest).add given) = .ok a) : ∀ s ∈ a.settings, P s := by
    obtain ⟨first, hfirst, h⟩ := Result.bind_eq_ok_iff.mp h
    obtain ⟨others, hothers, h⟩ := Result.bind_eq_ok_iff.mp h
    obtain rfl := Except.ok.inj h
    exact List.forall_mem_cons.mpr ⟨hsetting spec hspec name value first hfirst, hrest hothers⟩
  fun_induction read specs pending args generalizing a with
  | case1 | case6 | case7 => cases h
  | case2 | case4 | case5 =>
      obtain rfl := Except.ok.inj h
      simp
  | case3 _ _ _ _ ih => exact hset (hpending _ rfl) (ih (by simp)) h
  | case8 _ _ _ _ hfind _ _ ih | case9 _ _ _ _ hfind _ _ ih =>
      exact hset (List.mem_of_find?_eq_some hfind) (ih (by simp)) h
  | case10 _ _ _ _ hfind _ _ ih =>
      exact ih (by simpa using List.mem_of_find?_eq_some hfind) h

/-- Only an option that has a letter is given by it. -/
theorem exists_letter_of_mem_given {s : Setting} (hs : s ∈ given specs args)
    (hletter : s.byLetter = true) : ∃ spec ∈ specs, spec.name = s.name ∧ spec.letter ≠ none := by
  obtain ⟨before, _, hs⟩ := List.mem_flatMap.mp hs
  split at hs
  · rename_i a hread
    have hall : ∀ s ∈ a.settings, s.byLetter = true →
        ∃ spec ∈ specs, spec.name = s.name ∧ spec.letter ≠ none := by
      refine forall_settings_of_read ?_ (by simp) hread
      intro spec hspec name value s hsetting hletter
      obtain ⟨v, _, hsetting⟩ := Result.bind_eq_ok_iff.mp hsetting
      obtain rfl := Except.ok.inj hsetting
      refine ⟨spec, hspec, rfl, ?_⟩
      intro hnone
      simp [isLetter, hnone] at hletter
    exact hall s hs hletter
  · cases hs

end Options.Leading

end ArithAsm
