import ArithAsm.Proofs.Parsing

/-!
Where parsing fails. Every state of the parser can still be completed to an
expression, and a lexeme that it does not accept cannot be part of any. So the
lexeme in an error is the first one at which no expression is possible, and the
cause of the error follows from the lexemes before it.
-/

namespace ArithAsm

/-- The grammar derives an expression from the lexemes. -/
def Sentence (ls : List Lexeme) : Prop :=
  ∃ e, Derives .equality ls e

/-- Some sentence begins with the lexemes. -/
def Viable (ls : List Lexeme) : Prop :=
  ∃ more, Sentence (ls ++ more)

namespace LexemeKind

/-- Whether an operand may end with a lexeme of the kind. -/
def endsOperand (k : LexemeKind) : Bool :=
  k = number || k = rightParen

/-- How many parentheses are open after a lexeme, if `count` are open before it. -/
def nesting (count : Nat) : LexemeKind → Nat
  | leftParen => count + 1
  | rightParen => count - 1
  | _ => count

theorem effect_of_operator? {k : LexemeKind} {op : Operator} (h : k.operator? = some op) :
    k.opensOperand = true ∧ k.endsOperand = false ∧ ∀ count, k.nesting count = count := by
  cases k <;> cases h <;> exact ⟨rfl, rfl, fun _ => rfl⟩

end LexemeKind

/-- The number of opening parentheses that are still open. A closing one closes
the last of those that are open before it. -/
def unclosed (ls : List Lexeme) : Nat :=
  ls.foldl (fun count l => l.kind.nesting count) 0

namespace Parser

def Frame.isGroup : Frame → Bool
  | group => true
  | negate _ | apply _ _ _ => false

/-- The number of open parentheses among the frames. -/
def groups (stack : List Frame) : Nat :=
  stack.countP Frame.isGroup

namespace State

def stack : State → List Frame
  | operand stack => stack
  | operator stack _ => stack

def wantsOperand : State → Bool
  | operand _ => true
  | operator _ _ => false

end State

open State

theorem groups_settle (stack : List Frame) (e : Expr) :
    groups (settle stack e).stack = groups stack := by
  fun_induction settle stack e with
  | case1 loc stack e ih => exact ih
  | case2 => rfl

theorem groups_reduce (rank : Nat) (stack : List Frame) (e : Expr) :
    groups (reduce rank stack e).1 = groups stack := by
  fun_induction reduce rank stack e with
  | case1 e loc op left stack hrank ih => exact ih
  | case2 | case3 => rfl

theorem groups_unwind (stack : List Frame) (e : Expr) :
    groups (unwind stack e).1 = groups stack := by
  fun_induction unwind stack e with
  | case1 e loc op left stack ih => exact ih
  | case2 e loc stack ih => exact ih
  | case3 => rfl

theorem groups_of_unwind {stack stack' : List Frame} {e e' : Expr}
    (h : unwind stack e = (.group :: stack', e')) : groups stack = groups stack' + 1 := by
  have hgroups := groups_unwind stack e
  rw [h] at hgroups
  rw [← hgroups]
  exact List.countP_cons_of_pos rfl

/-- With an operand read, the expression is complete unless a parenthesis is
open. -/
theorem finish_operator_cases (stack : List Frame) (e : Expr) :
    (groups stack = 0 ∧ ∃ e', (operator stack e).finish = .ok e') ∨
      (0 < groups stack ∧ (operator stack e).finish = .error .unclosedParen) := by
  rcases unwind_cases stack e with ⟨e', hunwind⟩ | ⟨stack', e', hunwind⟩
  · have hgroups := groups_unwind stack e
    rw [hunwind] at hgroups
    exact .inl ⟨hgroups.symm, e', by simp [finish, hunwind]⟩
  · have hgroups := groups_of_unwind hunwind
    exact .inr ⟨by omega, by simp [finish, hunwind]⟩

theorem settle_wantsOperand (stack : List Frame) (e : Expr) :
    (settle stack e).wantsOperand = false := by
  obtain ⟨stack', e', hsettle⟩ := settle_eq_operator stack e
  rw [hsettle]
  rfl

/-- What a lexeme does that continues the expression: it decides what comes
next, and it opens and closes parentheses. -/
theorem shift?_effect {s s' : State} {l : Lexeme} (h : s.shift? l = some s') :
    s'.wantsOperand = l.kind.opensOperand ∧ s'.wantsOperand = !l.kind.endsOperand ∧
      groups s'.stack = l.kind.nesting (groups s.stack) := by
  cases s with
  | operand stack =>
      rw [shift?] at h
      split at h
      · rename_i hl
        obtain rfl := Option.some.inj h
        rw [hl, settle_wantsOperand, groups_settle]
        exact ⟨rfl, rfl, rfl⟩
      · rename_i hl
        obtain rfl := Option.some.inj h
        rw [hl]
        exact ⟨rfl, rfl, rfl⟩
      · rename_i hl
        obtain rfl := Option.some.inj h
        rw [hl]
        exact ⟨rfl, rfl, rfl⟩
      · rename_i hl
        obtain rfl := Option.some.inj h
        rw [hl]
        exact ⟨rfl, rfl, List.countP_cons_of_pos rfl⟩
      · cases h
  | operator stack e =>
      rw [shift?] at h
      cases hop : l.kind.operator? with
      | some op =>
          simp only [hop] at h
          obtain rfl := Option.some.inj h
          obtain ⟨hopens, hends, hnesting⟩ := LexemeKind.effect_of_operator? hop
          rw [hopens, hends, hnesting]
          exact ⟨rfl, rfl, groups_reduce op.rank stack e⟩
      | none =>
          simp only [hop] at h
          split at h
          · rename_i stack' e' hl hunwind
            obtain rfl := Option.some.inj h
            rw [hl, settle_wantsOperand, groups_settle, State.stack, groups_of_unwind hunwind]
            exact ⟨rfl, rfl, rfl⟩
          · cases h

/-- The state after some lexemes knows how many parentheses are open. -/
theorem groups_shifts {s s' : State} {ls : List Lexeme} (h : s.shifts? ls = some s') :
    groups s'.stack = ls.foldl (fun count l => l.kind.nesting count) (groups s.stack) := by
  induction ls generalizing s with
  | nil => rw [Option.some.inj h, List.foldl_nil]
  | cons l ls ih =>
      obtain ⟨s₁, hshift, hrest⟩ := Option.bind_eq_some_iff.mp h
      obtain ⟨_, _, hgroups⟩ := shift?_effect hshift
      rw [List.foldl_cons, ih hrest, hgroups]

theorem groups_of_shifts_initial {s : State} {ls : List Lexeme}
    (h : initial.shifts? ls = some s) : groups s.stack = unclosed ls :=
  groups_shifts h

/-- What comes next is decided by the last lexeme. -/
theorem shifts_last {s s' : State} {ls : List Lexeme} {l : Lexeme}
    (h : s.shifts? ls = some s') (hl : ls.getLast? = some l) :
    s'.wantsOperand = l.kind.opensOperand ∧ s'.wantsOperand = !l.kind.endsOperand := by
  obtain ⟨front, rfl⟩ := List.getLast?_eq_some_iff.mp hl
  induction front generalizing s with
  | nil =>
      obtain ⟨s₁, hshift, hrest⟩ := Option.bind_eq_some_iff.mp h
      obtain rfl := Option.some.inj hrest
      obtain ⟨hopens, hends, _⟩ := shift?_effect hshift
      exact ⟨hopens, hends⟩
  | cons l' front ih =>
      obtain ⟨s₁, _, hrest⟩ := Option.bind_eq_some_iff.mp h
      exact ih hrest (by simp)

theorem wantsOperand_iff {s : State} {ls : List Lexeme} (h : initial.shifts? ls = some s) :
    s.wantsOperand = true ↔ ls = [] ∨ ∃ l ∈ ls.getLast?, l.kind.opensOperand = true := by
  cases hlast : ls.getLast? with
  | none =>
      obtain rfl := List.getLast?_eq_none_iff.mp hlast
      obtain rfl := Option.some.inj h
      simp [initial, wantsOperand]
  | some l =>
      have hne : ls ≠ [] := by
        rintro rfl
        cases hlast
      rw [(shifts_last h hlast).1]
      simp [hne]

theorem not_wantsOperand_iff {s : State} {ls : List Lexeme} (h : initial.shifts? ls = some s) :
    s.wantsOperand = false ↔ ∃ l ∈ ls.getLast?, l.kind.endsOperand = true := by
  cases hlast : ls.getLast? with
  | none =>
      obtain rfl := List.getLast?_eq_none_iff.mp hlast
      obtain rfl := Option.some.inj h
      simp [initial, wantsOperand]
  | some l =>
      rw [(shifts_last h hlast).2]
      simp

/-- Closing the open parentheses completes the expression. -/
theorem operator_completes (stack : List Frame) (e : Expr) :
    ∃ more s' e', (operator stack e).shifts? more = some s' ∧ s'.finish = .ok e' := by
  -- one parenthesis is closed at a time, so the induction is on their number
  generalize hn : groups stack = n
  induction n generalizing stack e with
  | zero =>
      rcases finish_operator_cases stack e with ⟨_, e', hfinish⟩ | ⟨hopen, _⟩
      · exact ⟨[], operator stack e, e', rfl, hfinish⟩
      · omega
  | succ n ih =>
      rcases unwind_cases stack e with ⟨e₁, hunwind⟩ | ⟨stack₁, e₁, hunwind⟩
      · exact ⟨[], operator stack e, e₁, rfl, by simp [finish, hunwind]⟩
      · have hgroups₁ := groups_of_unwind hunwind
        have hgroups₂ := groups_settle stack₁ e₁
        obtain ⟨stack₂, e₂, hsettle⟩ := settle_eq_operator stack₁ e₁
        rw [hsettle, State.stack] at hgroups₂
        obtain ⟨more, s', e', hshifts, hfinish⟩ := ih stack₂ e₂ (by omega)
        let closing : Lexeme := ⟨.rightParen, ")", 0, .start⟩
        have hshift : (operator stack e).shift? closing = some (operator stack₂ e₂) := by
          simp [shift?, closing, LexemeKind.operator?, hunwind, hsettle]
        refine ⟨closing :: more, s', e', ?_, hfinish⟩
        rw [shifts?, hshift, Option.bind_some, hshifts]

/-- No state is a dead end. -/
theorem exists_completion (s : State) :
    ∃ more s' e, s.shifts? more = some s' ∧ s'.finish = .ok e := by
  cases s with
  | operator stack e => exact operator_completes stack e
  | operand stack =>
      let number : Lexeme := ⟨.number, "0", 0, .start⟩
      obtain ⟨stack', e', hsettle⟩ := settle_eq_operator stack (.number .start 0)
      obtain ⟨more, s', e, hshifts, hfinish⟩ := operator_completes stack' e'
      have hshift : (operand stack).shift? number = some (operator stack' e') := by
        simp [shift?, number, hsettle]
      refine ⟨number :: more, s', e, ?_, hfinish⟩
      rw [shifts?, hshift, Option.bind_some, hshifts]

theorem State.Spells.shifts {s s' : State} {before ls : List Lexeme} (h : s.Spells before)
    (hs : s.shifts? ls = some s') : s'.Spells (before ++ ls) := by
  induction ls generalizing s before with
  | nil =>
      rw [← Option.some.inj hs, List.append_nil]
      exact h
  | cons l ls ih =>
      obtain ⟨s₁, hshift, hrest⟩ := Option.bind_eq_some_iff.mp hs
      rw [List.append_cons]
      exact ih (h.shift hshift) hrest

/-- What the parser has accepted so far begins a sentence. -/
theorem viable_of_shifts {s : State} {ls : List Lexeme} (h : initial.shifts? ls = some s) :
    Viable ls := by
  obtain ⟨more, s', e, hmore, hfinish⟩ := exists_completion s
  have hshifts : initial.shifts? (ls ++ more) = some s' := by
    rw [shifts?_append h, hmore]
  have hspells : s'.Spells ([] ++ (ls ++ more)) := spells_initial.shifts hshifts
  exact ⟨more, e, hspells.finish_derives hfinish⟩

/-- A lexeme that the parser does not accept goes on with no sentence. -/
theorem not_viable_of_shift {s : State} {ls : List Lexeme} {l : Lexeme}
    (h : initial.shifts? ls = some s) (hl : s.shift? l = none) : ¬ Viable (ls ++ [l]) := by
  rintro ⟨more, e, hderives⟩
  obtain ⟨s', hshifts, _⟩ := finish_of_derives hderives
  rw [List.append_assoc, shifts?_append h, List.singleton_append, shifts?, hl] at hshifts
  cases hshifts

theorem sentence_iff_finish {s : State} {ls : List Lexeme} (h : initial.shifts? ls = some s) :
    Sentence ls ↔ ∃ e, s.finish = .ok e := by
  constructor
  · rintro ⟨e, hderives⟩
    obtain ⟨s', hshifts, hfinish⟩ := finish_of_derives hderives
    obtain rfl := Option.some.inj (h.symm.trans hshifts)
    exact ⟨e, hfinish⟩
  · rintro ⟨e, hfinish⟩
    have hspells : s.Spells ([] ++ ls) := spells_initial.shifts h
    exact ⟨e, hspells.finish_derives hfinish⟩

/-- A run accepts lexemes up to one that its state does not accept, and then the
state decides. -/
theorem run_stops (eof : Lexeme) (s : State) (ls : List Lexeme) :
    ∃ used left s', ls = used ++ left ∧ s.shifts? used = some s' ∧
      (∀ l ∈ left.head?, s'.shift? l = none) ∧
      (run eof s ls).1 = s'.finish.mapError (.ofLexeme · (left.head?.getD eof)) ∧
      ∀ e, s'.finish = .ok e → (run eof s ls).2 = left := by
  induction ls generalizing s with
  | nil => exact ⟨[], [], s, rfl, rfl, by simp, rfl, fun _ _ => rfl⟩
  | cons l ls ih =>
      cases hshift : s.shift? l with
      | some s₁ =>
          obtain ⟨used, left, s', rfl, hshifts, hstop, hanswer, hleft⟩ := ih s₁
          have hrun : run eof s (l :: (used ++ left)) = run eof s₁ (used ++ left) := by
            rw [run, hshift]
          refine ⟨l :: used, left, s', rfl, ?_, hstop, ?_, ?_⟩
          · rw [shifts?, hshift, Option.bind_some, hshifts]
          · rw [hrun, hanswer]
          · rwa [hrun]
      | none =>
          refine ⟨[], l :: ls, s, rfl, rfl, ?_, ?_, ?_⟩
          · intro l' hl'
            obtain rfl := Option.some.inj hl'
            exact hshift
          · rw [run, hshift]
            cases s.finish <;> rfl
          · intro e hfinish
            rw [run, hshift]
            simp only [hfinish]

/-- The cause to report when a state cannot accept what comes next. -/
def State.blame (s : State) : ParseCause :=
  match s.finish with
  | .ok _ => .trailingInput
  | .error cause => cause

theorem blame_eq_trailing_iff (s : State) :
    s.blame = .trailingInput ↔ ∃ e, s.finish = .ok e := by
  cases s with
  | operand stack => simp [blame, finish]
  | operator stack e =>
      rcases finish_operator_cases stack e with ⟨_, e', hfinish⟩ | ⟨_, hfinish⟩
      · simp [blame, hfinish]
      · simp [blame, hfinish]

theorem blame_eq_expected_iff (s : State) :
    s.blame = .expectedPrimary ↔ s.wantsOperand = true := by
  cases s with
  | operand stack => simp [blame, finish, wantsOperand]
  | operator stack e =>
      rcases finish_operator_cases stack e with ⟨_, e', hfinish⟩ | ⟨_, hfinish⟩
      · simp [blame, hfinish, wantsOperand]
      · simp [blame, hfinish, wantsOperand]

theorem blame_eq_unclosed_iff (s : State) :
    s.blame = .unclosedParen ↔ s.wantsOperand = false ∧ 0 < groups s.stack := by
  cases s with
  | operand stack => simp [blame, finish, wantsOperand]
  | operator stack e =>
      rcases finish_operator_cases stack e with ⟨hclosed, e', hfinish⟩ | ⟨hopen, hfinish⟩
      · simp [blame, hfinish, wantsOperand, State.stack, hclosed]
      · simp [blame, hfinish, wantsOperand, State.stack, hopen]

end Parser

open ArithAsm.Parser ArithAsm.Parser.State

/-- An error of strict parsing, told by the state in which the parser stopped. -/
theorem parse_error_stops {ls : List Lexeme} {err : ParseError} (h : parse false ls = .error err) :
    ∃ used left s, ls = used ++ left ∧ initial.shifts? used = some s ∧
      err = .ofLexeme s.blame (following ls left) ∧ s.shift? err.got = none ∧
      (err.got.kind = .eof → ¬ ∃ e, s.finish = .ok e) := by
  obtain ⟨used, left, s, hls, hshifts, hstop, hanswer, hleft⟩ :=
    run_stops (.eofAt (ofLexemes ls).endLoc) .initial ls
  have hnext : s.shift? (following ls left) = none := by
    cases left with
    | nil => exact shift?_eof s rfl
    | cons l left => exact hstop l rfl
  have hgot : err = .ofLexeme s.blame (following ls left) ∧
      ((following ls left).kind = .eof → ¬ ∃ e, s.finish = .ok e) := by
    cases hfinish : s.finish with
    | error cause =>
        rw [hfinish, Result.mapError_error] at hanswer
        have hparse : parse false ls = .error (.ofLexeme cause (following ls left)) :=
          parse_of_run_error (Prod.ext hanswer rfl)
        obtain rfl := Except.error.inj (h.symm.trans hparse)
        rw [blame, hfinish]
        exact ⟨rfl, by simp⟩
    | ok e =>
        rw [hfinish, Result.mapError_ok] at hanswer
        rw [parse_of_run_ok (Prod.ext hanswer (hleft e hfinish))] at h
        split at h
        · cases h
        · rename_i hkind
          obtain rfl := Except.error.inj h
          rw [blame, hfinish]
          exact ⟨rfl, fun heof => absurd (.inr heof) hkind⟩
  obtain ⟨rfl, hincomplete⟩ := hgot
  exact ⟨used, left, s, hls, hshifts, rfl, hnext, hincomplete⟩

/-- No expression is possible from the lexeme `got` on, which stands at the index
`i` or, if it is an end marker, where the lexemes end; before it one is. -/
structure FirstImpossible (ls : List Lexeme) (i : Nat) (got : Lexeme) : Prop where
  within : i ≤ ls.length
  got_eq : got = following ls (ls.drop i)
  viable : Viable (ls.take i)
  impossible : ¬ Viable (ls.take i ++ [got])
  incomplete : got.kind = .eof → ¬ Sentence (ls.take i)

theorem Viable.of_append {ls more : List Lexeme} (h : Viable (ls ++ more)) : Viable ls := by
  obtain ⟨rest, hsentence⟩ := h
  exact ⟨more ++ rest, by rwa [← List.append_assoc]⟩

/-- There is only one such place. -/
theorem FirstImpossible.unique {ls : List Lexeme} {i j : Nat} {got got' : Lexeme}
    (h : FirstImpossible ls i got) (h' : FirstImpossible ls j got') : i = j := by
  -- beyond an impossible lexeme nothing is viable
  have hle : ∀ {i j got got'}, FirstImpossible ls i got → FirstImpossible ls j got' → ¬ i < j := by
    intro i j got got' h h' hlt
    have hi : i < ls.length := Nat.lt_of_lt_of_le hlt h'.within
    have hgot : got = ls[i] := by
      rw [h.got_eq, List.drop_eq_getElem_cons hi]
      rfl
    have htake : ls.take (i + 1) <+: ls.take j := List.take_prefix_take_left hlt
    obtain ⟨more, hmore⟩ := htake
    have hviable := h'.viable
    rw [← hmore] at hviable
    apply h.impossible
    rw [hgot, List.take_append_getElem hi]
    exact hviable.of_append
  have hij := hle h h'
  have hji := hle h' h
  omega

/-- Errors are reported at the first impossible lexeme, with the cause that the
lexemes before it tell: they are a sentence, or an operand is missing after them,
or they end in an operand while a parenthesis is open. -/
theorem parse_error_first_impossible {ls : List Lexeme} {err : ParseError}
    (h : parse false ls = .error err) :
    ∃ i, FirstImpossible ls i err.got ∧ (∀ j got, FirstImpossible ls j got → j = i) ∧
      err.loc = err.got.loc ∧
      (err.cause = .trailingInput ↔ Sentence (ls.take i)) ∧
      (err.cause = .expectedPrimary ↔
        i = 0 ∨ ∃ l ∈ (ls.take i).getLast?, l.kind.opensOperand = true) ∧
      (err.cause = .unclosedParen ↔
        (∃ l ∈ (ls.take i).getLast?, l.kind.endsOperand = true) ∧
          0 < unclosed (ls.take i)) := by
  obtain ⟨used, left, s, hls, hshifts, herr, hstop, hincomplete⟩ := parse_error_stops h
  have htake : ls.take used.length = used := by rw [hls, List.take_left]
  have hdrop : ls.drop used.length = left := by rw [hls, List.drop_left]
  have hcause : err.cause = s.blame := congrArg ParseError.cause herr
  have hfirst : FirstImpossible ls used.length err.got := by
    constructor
    · rw [hls, List.length_append]
      exact Nat.le_add_right _ _
    · rw [hdrop, herr]
      rfl
    · rw [htake]
      exact viable_of_shifts hshifts
    · rw [htake]
      exact not_viable_of_shift hshifts hstop
    · rw [htake, sentence_iff_finish hshifts]
      exact hincomplete
  refine ⟨used.length, hfirst, fun j got hj => hj.unique hfirst, by rw [herr]; rfl, ?_, ?_, ?_⟩
  · rw [hcause, htake, blame_eq_trailing_iff, sentence_iff_finish hshifts]
  · rw [hcause, htake, blame_eq_expected_iff, wantsOperand_iff hshifts, List.length_eq_zero_iff]
  · rw [hcause, htake, blame_eq_unclosed_iff, not_wantsOperand_iff hshifts,
      groups_of_shifts_initial hshifts]

/-- The lexemes of `((1) 2)`: the number cannot stand where it does, with one
parenthesis still open. -/
def strandedNumber : List Lexeme := [
  ⟨.leftParen, "(", 0, ⟨1, 1, 0⟩⟩, ⟨.leftParen, "(", 0, ⟨1, 2, 1⟩⟩,
  ⟨.number, "1", 1, ⟨1, 3, 2⟩⟩, ⟨.rightParen, ")", 0, ⟨1, 4, 3⟩⟩,
  ⟨.number, "2", 2, ⟨1, 6, 5⟩⟩, ⟨.rightParen, ")", 0, ⟨1, 7, 6⟩⟩, .eofAt ⟨1, 8, 7⟩]

theorem parse_strandedNumber :
    parse false strandedNumber =
        .error (.ofLexeme .unclosedParen ⟨.number, "2", 2, ⟨1, 6, 5⟩⟩) ∧
      ∃ i, FirstImpossible strandedNumber i ⟨.number, "2", 2, ⟨1, 6, 5⟩⟩ ∧
        0 < unclosed (strandedNumber.take i) := by
  have herr : parse false strandedNumber =
      .error (.ofLexeme .unclosedParen ⟨.number, "2", 2, ⟨1, 6, 5⟩⟩) := rfl
  obtain ⟨i, hfirst, _, _, _, _, hunclosed⟩ := parse_error_first_impossible herr
  exact ⟨herr, i, hfirst, (hunclosed.mp rfl).2⟩

end ArithAsm
