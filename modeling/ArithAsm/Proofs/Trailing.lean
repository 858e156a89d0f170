import ArithAsm.Compilation
import ArithAsm.Proofs.Parsing

/-!
What allowing trailing input changes. The parser reads the same expression in
either mode, and it stops at the first lexeme that does not continue it; no
longer beginning of the lexemes is an expression. The modes differ in nothing but
what may follow.
-/

namespace ArithAsm

/-- The lexemes `sentence` are the longest beginning of a list that the grammar
derives an expression from. -/
structure LongestSentence (ls sentence : List Lexeme) (e : Expr) : Prop where
  beginning : sentence <+: ls
  derives : Derives .equality sentence e
  longest : ∀ longer e', longer <+: ls → Derives .equality longer e' →
    longer.length ≤ sentence.length

theorem LongestSentence.parse_eq {ls sentence : List Lexeme} {e : Expr}
    (h : LongestSentence ls sentence e) : parse false sentence = .ok e := by
  have hall : beforeEof sentence = sentence := by
    have happend : beforeEof (sentence ++ []) = sentence :=
      beforeEof_append h.derives.kind_ne_eof (by simp)
    rwa [List.append_nil] at happend
  apply parse_of_derives
  rw [hall]
  exact h.derives

namespace Parser

open State

/-- A run that returns an expression has used lexemes that continue it, up to
one that does not. -/
theorem run_ok_shifts {eof : Lexeme} {s : State} {ls rest : List Lexeme} {e : Expr}
    (h : run eof s ls = (.ok e, rest)) :
    ∃ used s', ls = used ++ rest ∧ s.shifts? used = some s' ∧
      ∀ l ∈ rest.head?, s'.shift? l = none := by
  induction ls generalizing s with
  | nil =>
      have hrest : [] = rest := congrArg Prod.snd h
      subst hrest
      exact ⟨[], s, rfl, rfl, by simp⟩
  | cons l ls ih =>
      rw [run] at h
      cases hshift : s.shift? l with
      | some s₁ =>
          simp only [hshift] at h
          obtain ⟨used, s', rfl, hshifts, hstop⟩ := ih h
          refine ⟨l :: used, s', rfl, ?_, hstop⟩
          rw [shifts?, hshift, Option.bind_some, hshifts]
      | none =>
          cases hfinish : s.finish with
          | error cause => simp [hshift, hfinish] at h
          | ok e' =>
              simp only [hshift, hfinish, Prod.mk.injEq] at h
              obtain ⟨_, rfl⟩ := h
              refine ⟨[], s, rfl, rfl, ?_⟩
              intro l' hl'
              obtain rfl := Option.some.inj hl'
              exact hshift

/-- The lexemes that a run uses are the longest sentence: the parser follows every
derivation, and it did not follow one beyond them. -/
theorem run_longest {eof : Lexeme} {ls rest : List Lexeme} {e : Expr}
    (h : run eof .initial ls = (.ok e, rest)) :
    ∃ used, ls = used ++ rest ∧ LongestSentence ls used e := by
  obtain ⟨used, s, hls, hshifts, hstop⟩ := run_ok_shifts h
  obtain ⟨used', hls', hderives⟩ := run_derives spells_initial h
  obtain rfl : used = used' := List.append_cancel_right (hls.symm.trans hls')
  refine ⟨used, hls, ⟨rest, hls.symm⟩, hderives, ?_⟩
  intro longer e' hbeginning hlonger
  by_contra hlength
  obtain ⟨more, rfl⟩ : used <+: longer :=
    List.prefix_of_prefix_length_le ⟨rest, hls.symm⟩ hbeginning (by omega)
  cases more with
  | nil =>
      rw [List.append_nil] at hlength
      exact hlength (Nat.le_refl _)
  | cons l more =>
      have hrest : l :: more <+: rest := by
        rw [hls] at hbeginning
        exact (List.prefix_append_right_inj used).mp hbeginning
      obtain ⟨after, rfl⟩ := hrest
      obtain ⟨s', hshifts', _⟩ := finish_of_derives hlonger
      rw [shifts?_append hshifts, shifts?, hstop l rfl] at hshifts'
      cases hshifts'

theorem finish_error_cause {s : State} {cause : ParseCause} (h : s.finish = .error cause) :
    cause ≠ .trailingInput := by
  cases s with
  | operand stack =>
      obtain rfl := Except.error.inj h
      decide
  | operator stack e =>
      rw [finish] at h
      split at h
      · cases h
      · obtain rfl := Except.error.inj h
        decide

/-- A run knows nothing of trailing input. -/
theorem run_error_cause {eof : Lexeme} {s : State} {ls : List Lexeme} {err : ParseError}
    (h : (run eof s ls).1 = .error err) : err.cause ≠ .trailingInput := by
  induction ls generalizing s with
  | nil =>
      obtain ⟨cause, hfinish, rfl⟩ := Result.mapError_eq_error_iff.mp h
      exact finish_error_cause hfinish
  | cons l ls ih =>
      rw [run] at h
      cases hshift : s.shift? l with
      | some s' =>
          simp only [hshift] at h
          exact ih h
      | none =>
          cases hfinish : s.finish with
          | ok e => simp [hshift, hfinish] at h
          | error cause =>
              simp only [hshift, hfinish] at h
              obtain rfl := Except.error.inj h
              exact finish_error_cause hfinish

end Parser

open ArithAsm.Parser

/-- The two ways in which parsing can go. Either it fails in both modes alike, or
there is a longest sentence; then strict parsing looks at the lexeme after it. -/
theorem parse_cases (ls : List Lexeme) :
    (∃ err : ParseError, err.cause ≠ .trailingInput ∧
      ∀ allowTrailing, parse allowTrailing ls = .error err) ∨
    ∃ sentence rest e, ls = sentence ++ rest ∧ LongestSentence ls sentence e ∧
      parse true ls = .ok e ∧
      parse false ls =
        if (following ls rest).kind = .eof then .ok e
        else .error (.ofLexeme .trailingInput (following ls rest)) := by
  cases hrun : run (.eofAt (ofLexemes ls).endLoc) .initial ls with
  | mk answer rest =>
      cases answer with
      | error err =>
          have hcause : err.cause ≠ .trailingInput := run_error_cause (congrArg Prod.fst hrun)
          exact .inl ⟨err, hcause, fun _ => parse_of_run_error hrun⟩
      | ok e =>
          obtain ⟨sentence, hls, hlongest⟩ := run_longest hrun
          refine .inr ⟨sentence, rest, e, hls, hlongest, ?_, ?_⟩
          · rw [parse_of_run_ok hrun, if_pos (.inl rfl)]
          · rw [parse_of_run_ok hrun]
            simp only [Bool.false_eq_true, false_or]

theorem parse_true_of_strict {ls : List Lexeme} {e : Expr} (h : parse false ls = .ok e) :
    parse true ls = .ok e := by
  rcases parse_cases ls with ⟨err, _, herr⟩ | ⟨sentence, rest, e', _, _, hlenient, hstrict⟩
  · rw [herr] at h
    cases h
  · rw [hstrict] at h
    split at h
    · rw [hlenient, h]
    · cases h

theorem parse_true_of_trailing {ls : List Lexeme} {err : ParseError}
    (h : parse false ls = .error err) (hcause : err.cause = .trailingInput) :
    ∃ sentence rest e, ls = sentence ++ err.got :: rest ∧ err.loc = err.got.loc ∧
      parse true ls = .ok e ∧ LongestSentence ls sentence e := by
  rcases parse_cases ls with ⟨err', hother, herr'⟩ | ⟨sentence, rest, e, hls, hlongest, hlenient,
    hstrict⟩
  · rw [herr'] at h
    obtain rfl := Except.error.inj h
    exact absurd hcause hother
  · rw [hstrict] at h
    split at h
    · cases h
    · rename_i hkind
      obtain rfl := Except.error.inj h
      cases rest with
      | nil => exact absurd rfl hkind
      | cons l rest => exact ⟨sentence, rest, e, hls, rfl, hlenient, hlongest⟩

theorem parse_true_of_other {ls : List Lexeme} {err : ParseError}
    (h : parse false ls = .error err) (hcause : err.cause ≠ .trailingInput) :
    parse true ls = .error err := by
  rcases parse_cases ls with ⟨err', _, herr'⟩ | ⟨sentence, rest, e, _, _, _, hstrict⟩
  · rw [herr'] at h ⊢
    exact h
  · rw [hstrict] at h
    split at h
    · cases h
    · obtain rfl := Except.error.inj h
      exact absurd rfl hcause

theorem compile_allowTrailing {t : Target} {checked : Bool} {source : Text} {c : Compilation}
    (h : compile t ⟨false, checked⟩ source = .ok c) :
    compile t ⟨true, checked⟩ source = .ok c := by
  obtain ⟨ls, hls, h⟩ := Result.bind_eq_ok_iff.mp h
  obtain ⟨e, he, hc⟩ := Result.bind_eq_ok_iff.mp h
  have hparse : parse true ls = .ok e :=
    parse_true_of_strict (Result.mapError_eq_ok_iff.mp he)
  have hlenient : readLexemes ⟨true, checked⟩ source = .ok ls := hls
  simp only [compile, hlenient, readLexemeList, hparse, hc, Result.mapError_ok, Result.ok_bind]

/-- Allowing trailing input changes nothing else. What strict parsing accepts is
read as the same tree. Where it fails at a lexeme after the expression, the tree
is that of the lexemes before, the longest sentence there is. Every other error
is the same in both modes. So a text that compiles strictly compiles to the same
result, the listing included. -/
theorem parse_trailing :
    (∀ ls e, parse false ls = .ok e → parse true ls = .ok e) ∧
    (∀ ls err, parse false ls = .error err → err.cause = .trailingInput →
      ∃ before rest e, ls = before ++ err.got :: rest ∧ err.loc = err.got.loc ∧
        parse true ls = .ok e ∧ parse false before = .ok e ∧ LongestSentence ls before e) ∧
    (∀ ls err, parse false ls = .error err → err.cause ≠ .trailingInput →
      parse true ls = .error err) ∧
    ∀ t checked source c, compile t ⟨false, checked⟩ source = .ok c →
      compile t ⟨true, checked⟩ source = .ok c := by
  refine ⟨fun ls e => parse_true_of_strict, ?_, fun ls err => parse_true_of_other,
    fun t checked source c => compile_allowTrailing⟩
  intro ls err herr hcause
  obtain ⟨before, rest, e, hls, hloc, hlenient, hlongest⟩ := parse_true_of_trailing herr hcause
  exact ⟨before, rest, e, hls, hloc, hlenient, hlongest.parse_eq, hlongest⟩

/-- The lexemes of `(7) + 1 2 * 3` on one line: a sum, and then a product. -/
def trailedSum : List Lexeme := [
  ⟨.leftParen, "(", 0, ⟨1, 1, 0⟩⟩, ⟨.number, "7", 7, ⟨1, 2, 1⟩⟩,
  ⟨.rightParen, ")", 0, ⟨1, 3, 2⟩⟩, ⟨.plus, "+", 0, ⟨1, 5, 4⟩⟩,
  ⟨.number, "1", 1, ⟨1, 7, 6⟩⟩, ⟨.number, "2", 2, ⟨1, 9, 8⟩⟩,
  ⟨.star, "*", 0, ⟨1, 11, 10⟩⟩, ⟨.number, "3", 3, ⟨1, 13, 12⟩⟩]

theorem parse_trailedSum :
    parse false trailedSum =
        .error (.ofLexeme .trailingInput ⟨.number, "2", 2, ⟨1, 9, 8⟩⟩) ∧
      ∃ before rest e, trailedSum = before ++ ⟨.number, "2", 2, ⟨1, 9, 8⟩⟩ :: rest ∧
        parse true trailedSum = .ok e ∧ parse false before = .ok e ∧
        LongestSentence trailedSum before e := by
  obtain ⟨_, htrailing, _⟩ := parse_trailing
  have herr : parse false trailedSum =
      .error (.ofLexeme .trailingInput ⟨.number, "2", 2, ⟨1, 9, 8⟩⟩) := rfl
  obtain ⟨before, rest, e, hls, _, hlenient, hbefore, hlongest⟩ := htrailing _ _ herr rfl
  exact ⟨herr, before, rest, e, hls, hlenient, hbefore, hlongest⟩

end ArithAsm
