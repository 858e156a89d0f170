import ArithAsm.Proofs.Parsing

/-!
A parser by recursive descent: a routine for each phrase of the grammar, which calls
the routine for the next tighter phrase, and a cursor in the list of lexemes that all of
them move. The parser of this library keeps on a stack what these routines keep in their
pending calls. Both give the same answer and leave the cursor in the same place.
-/

namespace ArithAsm.Descent

/-- The answer of a routine that was called at a position: an expression or an error, and
where the cursor stops. No routine moves the cursor back. -/
structure Answer (pos : Nat) where
  result : Except ParseError Expr
  stop : Nat
  le : pos ≤ stop

namespace Answer

variable {pos pos' : Nat}

def since (h : pos ≤ pos') (a : Answer pos') : Answer pos :=
  ⟨a.result, a.stop, Nat.le_trans h a.le⟩

/-- Goes on where an expression ends, and gives up at an error. -/
def andThen (a : Answer pos) (f : Expr → (pos' : Nat) → pos ≤ pos' → Answer pos') : Answer pos :=
  match a.result with
  | .error e => ⟨.error e, a.stop, a.le⟩
  | .ok e => (f e a.stop a.le).since a.le

end Answer

/-- A routine that can be called from a position on. -/
abbrev Routine (start : Nat) : Type := (pos : Nat) → start ≤ pos → Answer pos

variable (ls : List Lexeme)

/-- The lexeme at a position, which is an end marker behind the list. -/
def peek (pos : Nat) : Lexeme :=
  ls[pos]?.getD (.eofAt (Parser.ofLexemes ls).endLoc)

/-- The position after a lexeme has been consumed. -/
def past (pos : Nat) : Nat :=
  if pos < ls.length then pos + 1 else pos

theorem le_past (pos : Nat) : pos ≤ past ls pos := by
  unfold past
  split <;> omega

variable {ls}

theorem lt_length_of_peek {pos : Nat} (h : (peek ls pos).kind ≠ .eof) : pos < ls.length := by
  apply Nat.lt_of_not_le
  intro hle
  apply h
  rw [peek, List.getElem?_eq_none hle]
  rfl

theorem lt_past_of_peek {pos : Nat} (h : (peek ls pos).kind ≠ .eof) : pos < past ls pos := by
  rw [past, if_pos (lt_length_of_peek h)]
  omega

theorem kind_ne_eof_of_operator? {q : Phrase} {k : LexemeKind} {op : Operator}
    (h : q.operator? k = some op) : k ≠ .eof := by
  rintro rfl
  cases q <;> cases h

variable (ls) {start : Nat}

/-- The operators of a phrase and their right operands, folded to the left. -/
def links (q : Phrase) (operand : Routine start) (left : Expr) (pos : Nat) (hpos : start ≤ pos) :
    Answer pos :=
  match _hop : q.operator? (peek ls pos).kind with
  | none => ⟨.ok left, pos, Nat.le_refl pos⟩
  | some op =>
      have hnext : start ≤ past ls pos := Nat.le_trans hpos (le_past ls pos)
      ((operand (past ls pos) hnext).andThen fun right pos' h =>
        links q operand (.binary (peek ls pos).loc op left right) pos' (Nat.le_trans hnext h)).since
          (le_past ls pos)
termination_by ls.length - pos
decreasing_by
  have hlt := lt_length_of_peek (kind_ne_eof_of_operator? _hop)
  have hpast := lt_past_of_peek (kind_ne_eof_of_operator? _hop)
  omega

def leftAssoc (q : Phrase) (operand : Routine start) : Routine start := fun pos hpos =>
  (operand pos hpos).andThen fun left pos' h => links ls q operand left pos' (Nat.le_trans hpos h)

def unary (primary : Routine start) (pos : Nat) (hpos : start ≤ pos) : Answer pos :=
  have hnext : start ≤ past ls pos := Nat.le_trans hpos (le_past ls pos)
  match _hkind : (peek ls pos).kind with
  | .plus => (unary primary (past ls pos) hnext).since (le_past ls pos)
  | .minus =>
      ((unary primary (past ls pos) hnext).andThen fun e pos' _ =>
        ⟨.ok (Parser.negated (peek ls pos).loc e), pos', Nat.le_refl pos'⟩).since (le_past ls pos)
  | _ => primary pos hpos
termination_by ls.length - pos
decreasing_by all_goals
  have hne : (peek ls pos).kind ≠ .eof := by rw [_hkind]; decide
  have hlt := lt_length_of_peek hne
  have hpast := lt_past_of_peek hne
  omega

/-- A number, or an expression in parentheses, which the routine for those reads. -/
def primary (expr : (pos : Nat) → start < pos → start < ls.length → Answer pos) :
    Routine start := fun pos hpos =>
  match hkind : (peek ls pos).kind with
  | .number =>
      ⟨.ok (.number (peek ls pos).loc (peek ls pos).value), past ls pos, le_past ls pos⟩
  | .leftParen =>
      have hne : (peek ls pos).kind ≠ .eof := by rw [hkind]; decide
      ((expr (past ls pos) (Nat.lt_of_le_of_lt hpos (lt_past_of_peek hne))
          (Nat.lt_of_le_of_lt hpos (lt_length_of_peek hne))).andThen fun e pos' _ =>
        if (peek ls pos').kind = .rightParen then ⟨.ok e, past ls pos', le_past ls pos'⟩
        else ⟨.error (.ofLexeme .unclosedParen (peek ls pos')), past ls pos', le_past ls pos'⟩).since
          (le_past ls pos)
  | _ => ⟨.error (.ofLexeme .expectedPrimary (peek ls pos)), past ls pos, le_past ls pos⟩

def multiplicative (primary : Routine start) : Routine start :=
  leftAssoc ls .multiplicative (unary ls primary)

def additive (primary : Routine start) : Routine start :=
  leftAssoc ls .additive (multiplicative ls primary)

def relational (primary : Routine start) : Routine start :=
  leftAssoc ls .relational (additive ls primary)

def equality (primary : Routine start) : Routine start :=
  leftAssoc ls .equality (relational ls primary)

def expr (pos : Nat) : Answer pos :=
  equality ls (primary ls fun pos' _ _ => expr pos') pos (Nat.le_refl pos)
termination_by ls.length - pos

/-- Reads one expression from a position on. Unless trailing input is allowed, the
expression has to be followed by the end. -/
def expression (allowTrailing : Bool) (pos : Nat) : Except ParseError Expr × Nat :=
  let stop := (expr ls pos).stop
  match (expr ls pos).result with
  | .error e => (.error e, stop)
  | .ok e =>
      if !allowTrailing && (peek ls stop).kind ≠ .eof then
        (.error (.ofLexeme .trailingInput (peek ls stop)), stop)
      else (.ok e, stop)

open ArithAsm.Parser ArithAsm.Parser.State

/-- A run of the parser from a position on. -/
def runAt (s : State) (pos : Nat) : Except ParseError Expr × List Lexeme :=
  run (.eofAt (ofLexemes ls).endLoc) s (ls.drop pos)

variable {ls}

theorem drop_cases (pos : Nat) :
    (ls.drop pos = peek ls pos :: ls.drop (past ls pos)) ∨
      (ls.drop pos = [] ∧ ls.drop (past ls pos) = [] ∧
        peek ls pos = .eofAt (ofLexemes ls).endLoc) := by
  by_cases h : pos < ls.length
  · left
    rw [peek, past, if_pos h, List.drop_eq_getElem_cons h, List.getElem?_eq_getElem h]
    rfl
  · right
    have hle : ls.length ≤ pos := Nat.le_of_not_lt h
    rw [peek, past, if_neg h, List.drop_eq_nil_of_le hle, List.getElem?_eq_none hle]
    exact ⟨rfl, rfl, rfl⟩

section Steps

variable {s s' : State} {pos : Nat}

theorem runAt_of_shift (h : s.shift? (peek ls pos) = some s') :
    runAt ls s pos = runAt ls s' (past ls pos) := by
  rcases drop_cases pos with hdrop | ⟨_, _, heof⟩
  · rw [runAt, hdrop, run, h]
    rfl
  · rw [heof, shift?_eof s rfl] at h
    cases h

theorem runAt_of_error {cause : ParseCause} (h : s.shift? (peek ls pos) = none)
    (hfinish : s.finish = .error cause) :
    runAt ls s pos = (.error (.ofLexeme cause (peek ls pos)), ls.drop (past ls pos)) := by
  rcases drop_cases pos with hdrop | ⟨hdrop, hpast, heof⟩
  · rw [runAt, hdrop, run, h, hfinish]
  · rw [runAt, hdrop, hpast, heof, run, hfinish]
    rfl

theorem runAt_of_ok {e : Expr} (h : s.shift? (peek ls pos) = none) (hfinish : s.finish = .ok e) :
    runAt ls s pos = (.ok e, ls.drop pos) := by
  rcases drop_cases pos with hdrop | ⟨hdrop, _, _⟩
  · rw [runAt, hdrop, run, h, hfinish]
  · rw [runAt, hdrop, run, hfinish]
    rfl

end Steps

variable (ls)

/-- An answer agrees with the outcome of a run: an error is that of the run, and where
an expression was read, the run goes on in a certain way. -/
def Agrees (outcome : Except ParseError Expr × List Lexeme) (goesOn : Expr → Nat → Prop)
    {pos : Nat} (a : Answer pos) : Prop :=
  match a.result with
  | .error e => outcome = (.error e, ls.drop a.stop)
  | .ok e => goesOn e a.stop

variable {ls}

theorem Agrees.andThen {outcome : Except ParseError Expr × List Lexeme}
    {goesOn goesOn' : Expr → Nat → Prop} {pos : Nat} {a : Answer pos}
    {f : Expr → (pos' : Nat) → pos ≤ pos' → Answer pos'} (h : Agrees ls outcome goesOn a)
    (hf : ∀ e pos' hpos, goesOn e pos' → Agrees ls outcome goesOn' (f e pos' hpos)) :
    Agrees ls outcome goesOn' (a.andThen f) := by
  unfold Agrees at h
  unfold Answer.andThen
  cases hresult : a.result with
  | error e =>
      rw [hresult] at h
      exact h
  | ok e =>
      rw [hresult] at h
      exact hf e a.stop a.le h

variable (ls)

/-- The run goes on behind an operand. -/
def AfterOperand (outcome : Except ParseError Expr × List Lexeme) (stack : List Frame) (e : Expr)
    (pos : Nat) : Prop :=
  outcome = runAt ls (settle stack e) pos

/-- The run goes on behind a phrase of a rank: it folds to the expression, and an operator
that comes next binds less tightly than `bound`. -/
def AfterPhrase (rank bound : Nat) (outcome : Except ParseError Expr × List Lexeme)
    (stack : List Frame) (e : Expr) (pos : Nat) : Prop :=
  ∃ stack' e', outcome = runAt ls (.operator stack' e') pos ∧
    reduce rank stack' e' = (stack, e) ∧
    ∀ op, (peek ls pos).kind.operator? = some op → op.rank < bound

def ReadsOperand (routine : Routine start) : Prop :=
  ∀ pos hpos stack, Agrees ls (runAt ls (.operand stack) pos)
    (AfterOperand ls (runAt ls (.operand stack) pos) stack) (routine pos hpos)

/-- Where no sign stands, the routine reads an operand. -/
def ReadsPrimary (routine : Routine start) : Prop :=
  ∀ pos hpos stack, (peek ls pos).kind ≠ .plus → (peek ls pos).kind ≠ .minus →
    Agrees ls (runAt ls (.operand stack) pos)
      (AfterOperand ls (runAt ls (.operand stack) pos) stack) (routine pos hpos)

def ReadsPhrase (rank : Nat) (routine : Routine start) : Prop :=
  ∀ pos hpos stack, Closed rank stack → Agrees ls (runAt ls (.operand stack) pos)
    (AfterPhrase ls rank rank (runAt ls (.operand stack) pos) stack) (routine pos hpos)

variable {ls}

/-- What a phrase leaves open folds on for a looser one. -/
theorem AfterPhrase.loosen {j k bound : Nat} {outcome : Except ParseError Expr × List Lexeme}
    {stack stack' : List Frame} {e e' : Expr} {pos : Nat}
    (h : AfterPhrase ls k bound outcome stack' e' pos) (hle : j ≤ k)
    (hreduce : reduce j stack' e' = (stack, e)) :
    AfterPhrase ls j bound outcome stack e pos := by
  obtain ⟨stack₁, e₁, hrun, hfolds, hbound⟩ := h
  refine ⟨stack₁, e₁, hrun, ?_, hbound⟩
  rw [← reduce_reduce hle, hfolds, hreduce]

/-- The loop over the links of a chain. The left operand has been folded before each
round, and an operator of the phrase waits on the stack while its right operand is read. -/
theorem agrees_links {q : Phrase} {operand : Routine start}
    (hoperand : ReadsPhrase ls (q.rank + 1) operand) {stack : List Frame}
    (hclosed : Closed q.rank stack) {outcome : Except ParseError Expr × List Lexeme} {left : Expr}
    {pos : Nat} (hpos : start ≤ pos)
    (h : AfterPhrase ls q.rank (q.rank + 1) outcome stack left pos) :
    Agrees ls outcome (AfterPhrase ls q.rank q.rank outcome stack)
      (links ls q operand left pos hpos) := by
  fun_induction links ls q operand left pos hpos with
  | case1 left pos hpos hnone =>
      obtain ⟨stack', e', hrun, hfolds, hbound⟩ := h
      refine ⟨stack', e', hrun, hfolds, ?_⟩
      intro op hop
      have hne : op.rank ≠ q.rank := by
        intro hrank
        have hq : q = Phrase.ofOperator op := Phrase.rank_injective (by simp [hrank])
        rw [Phrase.operator?_eq_some_iff.mpr ⟨hop, hq⟩] at hnone
        cases hnone
      have hlt := hbound op hop
      omega
  | case2 left pos hpos op hop hnext ih =>
      obtain ⟨stack', e', hrun, hfolds, _⟩ := h
      obtain ⟨hkind, rfl⟩ := Phrase.operator?_eq_some_iff.mp hop
      rw [Phrase.rank_ofOperator] at hoperand hclosed hfolds ih ⊢
      have hshift : (operator stack' e').shift? (peek ls pos) =
          some (.operand (.apply (peek ls pos).loc op left :: stack)) := by
        simp [shift?, hkind, hfolds]
      rw [runAt_of_shift hshift] at hrun
      have hright := hoperand (past ls pos) hnext (.apply (peek ls pos).loc op left :: stack)
        (Nat.lt_succ_self _)
      rw [← hrun] at hright
      refine hright.andThen ?_
      intro right pos' hle hafter
      refine ih right pos' hle (hafter.loosen (Nat.le_succ _) ?_)
      rw [reduce, if_pos (Nat.le_refl _), hclosed.reduce_eq]

theorem readsPhrase_leftAssoc {q : Phrase} {operand : Routine start}
    (hoperand : ReadsPhrase ls (q.rank + 1) operand) :
    ReadsPhrase ls q.rank (leftAssoc ls q operand) := by
  intro pos hpos stack hclosed
  refine (hoperand pos hpos stack (hclosed.mono (Nat.le_succ _))).andThen ?_
  intro left pos' hle hafter
  exact agrees_links hoperand hclosed _ (hafter.loosen (Nat.le_succ _) (hclosed.reduce_eq left))

/-- An operand is also a phrase that no operator binds as tightly as. -/
theorem ReadsOperand.readsPhrase {routine : Routine start} (h : ReadsOperand ls routine) :
    ReadsPhrase ls Phrase.unary.rank routine := by
  intro pos hpos stack hclosed
  have hread := h pos hpos stack
  unfold Agrees at hread ⊢
  split
  · rename_i err herr
    rw [herr] at hread
    exact hread
  · rename_i e he
    rw [he] at hread
    refine ⟨stack, e, ?_, hclosed.reduce_eq e, ?_⟩
    · rw [hread, hclosed.settle_eq]
    · intro op _
      cases op <;> decide

theorem readsOperand_unary {routine : Routine start} (h : ReadsPrimary ls routine) :
    ReadsOperand ls (unary ls routine) := by
  intro pos hpos stack
  fun_induction unary ls routine pos hpos generalizing stack with
  | case1 pos hpos hnext hkind ih =>
      have hshift : (operand stack).shift? (peek ls pos) = some (operand stack) := by
        simp [shift?, hkind]
      rw [runAt_of_shift hshift]
      exact ih stack
  | case2 pos hpos hnext hkind ih =>
      have hshift : (operand stack).shift? (peek ls pos) =
          some (operand (.negate (peek ls pos).loc :: stack)) := by
        simp [shift?, hkind]
      rw [runAt_of_shift hshift]
      exact (ih _).andThen fun e pos' _ hafter => hafter
  | case3 pos hpos hnext hplus hminus => exact h pos hpos stack hplus hminus

theorem operator?_eq_none {k : LexemeKind} (h : ∀ op, k.operator? = some op → op.rank < 0) :
    k.operator? = none :=
  Option.eq_none_iff_forall_ne_some.mpr fun op hop => Nat.not_lt_zero _ (h op hop)

theorem readsPrimary_primary {expr : (pos : Nat) → start < pos → start < ls.length → Answer pos}
    (h : ∀ pos hpos hlt stack, Closed 0 stack → Agrees ls (runAt ls (.operand stack) pos)
      (AfterPhrase ls 0 0 (runAt ls (.operand stack) pos) stack) (expr pos hpos hlt)) :
    ReadsPrimary ls (primary ls expr) := by
  intro pos hpos stack hplus hminus
  unfold primary
  split
  · rename_i hkind
    have hshift : (operand stack).shift? (peek ls pos) =
        some (settle stack (.number (peek ls pos).loc (peek ls pos).value)) := by
      simp [shift?, hkind]
    exact runAt_of_shift hshift
  · rename_i hkind
    have hshift : (operand stack).shift? (peek ls pos) = some (operand (.group :: stack)) := by
      simp [shift?, hkind]
    rw [runAt_of_shift hshift]
    change Agrees ls _ _ ((expr (past ls pos) _ _).andThen _)
    refine (h _ _ _ (.group :: stack) trivial).andThen ?_
    rintro e pos' _ ⟨stack', e', hrun, hfolds, hbound⟩
    have hunwind : unwind stack' e' = (.group :: stack, e) := by
      rw [← unwind_reduce 0, hfolds]
      rfl
    have hoperator := operator?_eq_none hbound
    split
    · rename_i hclose
      have hshift' : (operator stack' e').shift? (peek ls pos') = some (settle stack e) := by
        simp [shift?, hclose, LexemeKind.operator?, hunwind]
      exact hrun.trans (runAt_of_shift hshift')
    · rename_i hclose
      have hshift' : (operator stack' e').shift? (peek ls pos') = none := by
        simp [shift?, hoperator, hclose]
      exact hrun.trans (runAt_of_error hshift' (by simp [finish, hunwind]))
  · rename_i hnumber hopen
    have hshift : (operand stack).shift? (peek ls pos) = none := by
      simp [shift?]
    exact runAt_of_error hshift rfl

theorem readsPhrase_equality {primary : Routine start} (h : ReadsPrimary ls primary) :
    ReadsPhrase ls Phrase.equality.rank (equality ls primary) := by
  have hunary : ReadsPhrase ls Phrase.unary.rank (unary ls primary) :=
    (readsOperand_unary h).readsPhrase
  have hmultiplicative : ReadsPhrase ls Phrase.multiplicative.rank (multiplicative ls primary) :=
    readsPhrase_leftAssoc hunary
  have hadditive : ReadsPhrase ls Phrase.additive.rank (additive ls primary) :=
    readsPhrase_leftAssoc hmultiplicative
  have hrelational : ReadsPhrase ls Phrase.relational.rank (relational ls primary) :=
    readsPhrase_leftAssoc hadditive
  exact readsPhrase_leftAssoc hrelational

/-- From any position on, the expression that is read is the phrase that the parser reads
there. The induction is over the positions at which a parenthesis can be opened. -/
theorem agrees_expr (pos : Nat) {stack : List Frame} (hclosed : Closed 0 stack) :
    Agrees ls (runAt ls (.operand stack) pos)
      (AfterPhrase ls 0 0 (runAt ls (.operand stack) pos) stack) (expr ls pos) := by
  induction pos using expr.induct ls generalizing stack with
  | case1 pos ih =>
      have hprimary : ReadsPrimary ls (primary ls fun pos' (_ : pos < pos') _ => expr ls pos') :=
        readsPrimary_primary fun pos' hpos hlt stack => ih pos' hpos hlt
      rw [expr]
      exact readsPhrase_equality hprimary pos (Nat.le_refl pos) stack hclosed

variable (ls)

/-- With nothing open, the answer is the outcome of the run. -/
theorem runAt_initial (pos : Nat) :
    runAt ls .initial pos = ((expr ls pos).result, ls.drop (expr ls pos).stop) := by
  have hnil : Closed 0 [] := trivial
  have hexpr : Agrees ls (runAt ls .initial pos)
      (AfterPhrase ls 0 0 (runAt ls .initial pos) []) (expr ls pos) := agrees_expr pos hnil
  unfold Agrees at hexpr
  cases hresult : (expr ls pos).result with
  | error e =>
      rw [hresult] at hexpr
      exact hexpr
  | ok e =>
      rw [hresult] at hexpr
      obtain ⟨stack, e', hrun, hfolds, hbound⟩ := hexpr
      have hunwind : unwind stack e' = ([], e) := by
        rw [← unwind_reduce 0, hfolds]
        rfl
      have hfinish : (operator stack e').finish = .ok e := by simp [finish, hunwind]
      have hshift : (operator stack e').shift? (peek ls (expr ls pos).stop) = none := by
        simp [shift?, operator?_eq_none hbound, hunwind]
      rw [hrun, runAt_of_ok hshift hfinish]

/-- The parser of the library with its cursor at a position. -/
def view (pos : Nat) : Parser :=
  ⟨ls.drop pos, (ofLexemes ls).endLoc⟩

theorem peek_view (pos : Nat) : (view ls pos).peek = peek ls pos := by
  rw [Parser.peek, view, List.head?_drop]
  rfl

/-- Recursive descent gives the answer of the parser and moves the cursor to the same
place, from any position on. -/
theorem expression_view (allowTrailing : Bool) (pos : Nat) :
    (view ls pos).expression allowTrailing =
      ((expression ls allowTrailing pos).1, view ls (expression ls allowTrailing pos).2) := by
  have hrun : run (.eofAt (view ls pos).endLoc) .initial (view ls pos).rest =
      ((expr ls pos).result, ls.drop (expr ls pos).stop) := runAt_initial ls pos
  have hmoved : { view ls pos with rest := ls.drop (expr ls pos).stop } =
      view ls (expr ls pos).stop := rfl
  have hpeek := peek_view ls (expr ls pos).stop
  unfold Parser.expression expression
  rw [hrun]
  cases (expr ls pos).result with
  | error e => rfl
  | ok e =>
      simp only [hmoved, hpeek]
      by_cases hend : (peek ls (expr ls pos).stop).kind = .eof <;> cases allowTrailing <;>
        simp [hend]

theorem expression_eq_parse (allowTrailing : Bool) :
    (expression ls allowTrailing 0).1 = parse allowTrailing ls :=
  (congrArg Prod.fst (expression_view ls allowTrailing 0)).symm

end ArithAsm.Descent
