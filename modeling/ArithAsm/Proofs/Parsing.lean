import ArithAsm.Proofs.Grammar
import ArithAsm.Proofs.Result

/-!
The parser accepts exactly what the grammar derives. In one direction, what has
been read and is still open is tied to the frames of the parser by `Opened`,
which every step keeps. In the other direction, a derivation says which frames
its lexemes leave behind, whatever was open before them.
-/

namespace ArithAsm.Parser

open State

/-- The lexemes read so far leave the frames open, and a phrase `p` comes next.
Below an operation only operators that bind less tightly are open, and signs
are open only right before a primary phrase. -/
inductive Opened : Phrase → List Frame → List Lexeme → Prop
  | nil (p : Phrase) : Opened p [] []
  | group {l : Lexeme} {stack : List Frame} {ls : List Lexeme} (p : Phrase)
      (hl : l.kind = .leftParen) (h : Opened .primary stack ls) :
      Opened p (.group :: stack) (ls ++ [l])
  | apply {p q : Phrase} {l : Lexeme} {op : Operator} {stack : List Frame}
      {ls rs : List Lexeme} {left : Expr} (hop : p.operator? l.kind = some op)
      (h : Opened p stack ls) (hleft : Derives p rs left) (hrank : p.rank < q.rank) :
      Opened q (.apply l.loc op left :: stack) (ls ++ rs ++ [l])
  | plus {l : Lexeme} {stack : List Frame} {ls : List Lexeme} (hl : l.kind = .plus)
      (h : Opened .primary stack ls) : Opened .primary stack (ls ++ [l])
  | minus {l : Lexeme} {stack : List Frame} {ls : List Lexeme} (hl : l.kind = .minus)
      (h : Opened .primary stack ls) :
      Opened .primary (.negate l.loc :: stack) (ls ++ [l])

/-- The lexemes read so far, as the parser remembers them. -/
def State.Spells : State → List Lexeme → Prop
  | operand stack, ls => Opened .primary stack ls
  | operator stack e, ls =>
      ∃ before rs, ls = before ++ rs ∧ Opened .unary stack before ∧ Derives .unary rs e

/-- After an operand, the signs in front of it belong to it. -/
theorem Opened.settle_spells {stack : List Frame} {ls rs : List Lexeme} {e : Expr}
    (h : Opened .primary stack ls) (he : Derives .unary rs e) :
    (settle stack e).Spells (ls ++ rs) := by
  generalize hp : Phrase.primary = p at h
  induction h generalizing rs e with
  | nil => exact ⟨[], rs, rfl, .nil .unary, he⟩
  | group _ hl h => exact ⟨_, rs, rfl, .group .unary hl h, he⟩
  | @apply p q l op stack ls rs' left hop h hleft hrank =>
      have hunary : p.rank < Phrase.unary.rank := by
        rw [(Phrase.operator?_eq_some_iff.mp hop).2]
        cases op <;> decide
      exact ⟨_, rs, rfl, .apply hop h hleft hunary, he⟩
  | plus hl _ ih =>
      have hread := ih (.plus hl he) rfl
      rwa [List.append_cons] at hread
  | minus hl _ ih =>
      have hread := ih (.minus hl he) rfl
      rwa [List.append_cons] at hread

/-- What `reduce` leaves, in terms of the lexemes: a phrase `p` of which nothing
is open any more. -/
theorem Opened.reduce_derives {p q : Phrase} {stack : List Frame} {ls rs : List Lexeme}
    {e : Expr} (h : Opened q stack ls) (he : Derives q rs e) (hq : q ≠ .primary)
    (hle : p.rank ≤ q.rank) :
    ∃ ls' rs', ls ++ rs = ls' ++ rs' ∧ Opened p (reduce p.rank stack e).1 ls' ∧
      Derives p rs' (reduce p.rank stack e).2 := by
  induction h generalizing rs e with
  | nil q => exact ⟨[], rs, rfl, .nil p, he.loosen hle⟩
  | group q hl h => exact ⟨_, rs, rfl, .group p hl h, he.loosen hle⟩
  | plus _ _ _ | minus _ _ _ => exact absurd rfl hq
  | @apply p' q l op stack ls rs' left hop h hleft hrank ih =>
      obtain ⟨_, rfl⟩ := Phrase.operator?_eq_some_iff.mp hop
      by_cases hreduce : p.rank ≤ op.rank
      · -- the operation is complete: its right operand is the phrase just read
        obtain ⟨q', hq'⟩ := Phrase.exists_tighter hrank
        have hoperand : Derives q' rs e :=
          he.loosen (by rw [Phrase.rank_of_tighter hq']; exact hrank)
        have hprimary : Phrase.ofOperator op ≠ .primary := by cases op <;> decide
        obtain ⟨ls'', rs'', heq, hopened, hderives⟩ :=
          ih (.chain hq' hleft hop hoperand) hprimary (by simpa using hreduce)
        refine ⟨ls'', rs'', ?_, ?_, ?_⟩
        · rw [← heq]
          simp
        · simpa [reduce, hreduce] using hopened
        · simpa [reduce, hreduce] using hderives
      · have hlt : (Phrase.ofOperator op).rank < p.rank := by simpa using hreduce
        simp only [reduce, hreduce, if_false]
        exact ⟨_, rs, rfl, .apply hop h hleft hlt, he.loosen hle⟩

/-- As long as no sign is open, unwinding completes all operations. -/
theorem Opened.unwind_eq_reduce {q : Phrase} {stack : List Frame} {ls : List Lexeme}
    (h : Opened q stack ls) (hq : q ≠ .primary) (e : Expr) :
    unwind stack e = reduce 0 stack e := by
  induction h generalizing e with
  | nil | group => rfl
  | plus | minus => exact absurd rfl hq
  | @apply p' q l op stack ls rs' left hop h hleft hrank ih =>
      have hprimary : p' ≠ .primary := by
        rintro rfl
        cases hop
      rw [unwind, reduce, if_pos (Nat.zero_le _)]
      exact ih hprimary _

theorem Opened.unwind_derives {stack : List Frame} {ls rs : List Lexeme} {e : Expr}
    (h : Opened .unary stack ls) (he : Derives .unary rs e) :
    ∃ ls' rs', ls ++ rs = ls' ++ rs' ∧ Opened .equality (unwind stack e).1 ls' ∧
      Derives .equality rs' (unwind stack e).2 := by
  rw [h.unwind_eq_reduce (by decide) e]
  exact h.reduce_derives he (by decide) (Nat.zero_le _)

theorem spells_initial : initial.Spells [] :=
  .nil .primary

/-- A lexeme that continues the expression adds itself to what was read. -/
theorem State.Spells.shift {s s' : State} {ls : List Lexeme} {l : Lexeme} (h : s.Spells ls)
    (hs : s.shift? l = some s') : s'.Spells (ls ++ [l]) := by
  cases s with
  | operand stack =>
      rw [shift?] at hs
      split at hs
      · rename_i hl
        cases hs
        exact h.settle_spells (.single rfl (.number hl))
      · rename_i hl
        cases hs
        exact .plus hl h
      · rename_i hl
        cases hs
        exact .minus hl h
      · rename_i hl
        cases hs
        exact .group .primary hl h
      · cases hs
  | operator stack e =>
      obtain ⟨before, rs, rfl, hopened, hderives⟩ := h
      rw [shift?] at hs
      cases hop : l.kind.operator? with
      | some op =>
          simp only [hop] at hs
          cases hs
          have hphrase : (Phrase.ofOperator op).operator? l.kind = some op :=
            Phrase.operator?_eq_some_iff.mpr ⟨hop, rfl⟩
          have hle : (Phrase.ofOperator op).rank ≤ Phrase.unary.rank := by
            cases op <;> decide
          obtain ⟨ls', rs', heq, hopened', hleft⟩ :=
            hopened.reduce_derives hderives (by decide) hle
          rw [Phrase.rank_ofOperator] at hopened' hleft
          rw [heq]
          exact .apply hphrase hopened' hleft (by cases op <;> decide)
      | none =>
          obtain ⟨ls', rs', heq, hopened', hgroup⟩ := hopened.unwind_derives hderives
          simp only [hop] at hs
          split at hs
          · rename_i stack' e' hl hunwind
            cases hs
            rw [hunwind] at hopened' hgroup
            cases hopened' with
            | @group l' _ before' _ hl' h' =>
                have hparen := h'.settle_spells (.single rfl (.paren hl' hgroup hl))
                rw [heq]
                simpa using hparen
          · cases hs

/-- A complete expression is one that the grammar derives from everything read. -/
theorem State.Spells.finish_derives {s : State} {ls : List Lexeme} {e : Expr}
    (h : s.Spells ls) (hfinish : s.finish = .ok e) : Derives .equality ls e := by
  cases s with
  | operand stack => cases hfinish
  | operator stack e' =>
      obtain ⟨before, rs, rfl, hopened, hderives⟩ := h
      obtain ⟨ls', rs', heq, hopened', hwhole⟩ := hopened.unwind_derives hderives
      rw [finish] at hfinish
      split at hfinish
      · rename_i e'' hunwind
        cases hfinish
        rw [hunwind] at hopened' hwhole
        cases hopened'
        rwa [heq]
      · cases hfinish

/-- What the parser returns is derived from the lexemes it used. -/
theorem run_derives {eof : Lexeme} {s : State} {before ls rest : List Lexeme} {e : Expr}
    (h : s.Spells before) (hrun : run eof s ls = (.ok e, rest)) :
    ∃ used, ls = used ++ rest ∧ Derives .equality (before ++ used) e := by
  induction ls generalizing s before with
  | nil =>
      rw [run] at hrun
      cases hfinish : s.finish with
      | error cause => simp [hfinish] at hrun
      | ok e' =>
          simp only [hfinish, Result.mapError_ok, Prod.mk.injEq, Except.ok.injEq] at hrun
          obtain ⟨rfl, rfl⟩ := hrun
          exact ⟨[], rfl, by simpa using h.finish_derives hfinish⟩
  | cons l ls ih =>
      rw [run] at hrun
      cases hshift : s.shift? l with
      | some s' =>
          simp only [hshift] at hrun
          obtain ⟨used, rfl, hderives⟩ := ih (h.shift hshift) hrun
          exact ⟨l :: used, rfl, by simpa using hderives⟩
      | none =>
          cases hfinish : s.finish with
          | error cause => simp [hshift, hfinish] at hrun
          | ok e' =>
              simp only [hshift, hfinish, Prod.mk.injEq, Except.ok.injEq] at hrun
              obtain ⟨rfl, rfl⟩ := hrun
              exact ⟨[], rfl, by simpa using h.finish_derives hfinish⟩

/-- The state after a sequence of lexemes that all continue the expression. -/
def State.shifts? (s : State) : List Lexeme → Option State
  | [] => some s
  | l :: ls => (s.shift? l).bind (·.shifts? ls)

theorem State.shifts?_append {s s' : State} {ls : List Lexeme} (h : s.shifts? ls = some s')
    (rs : List Lexeme) : s.shifts? (ls ++ rs) = s'.shifts? rs := by
  induction ls generalizing s with
  | nil => rw [Option.some.inj h, List.nil_append]
  | cons l ls ih =>
      obtain ⟨s₁, hshift, hrest⟩ := Option.bind_eq_some_iff.mp h
      rw [List.cons_append, shifts?, hshift, Option.bind_some, ih hrest]

theorem run_of_shifts {eof : Lexeme} {s s' : State} {ls : List Lexeme}
    (h : s.shifts? ls = some s') (rest : List Lexeme) :
    run eof s (ls ++ rest) = run eof s' rest := by
  induction ls generalizing s with
  | nil => rw [Option.some.inj h, List.nil_append]
  | cons l ls ih =>
      obtain ⟨s₁, hshift, hrest⟩ := Option.bind_eq_some_iff.mp h
      rw [List.cons_append, run, hshift]
      exact ih hrest

/-- Nothing on top of the stack belongs to a phrase of the given rank. -/
def Closed (rank : Nat) : List Frame → Prop
  | .apply _ op _ :: _ => op.rank < rank
  | .negate _ :: _ => False
  | _ => True

theorem Closed.mono {j k : Nat} {stack : List Frame} (h : Closed j stack) (hle : j ≤ k) :
    Closed k stack := by
  match stack with
  | [] | .group :: _ => trivial
  | .apply _ op _ :: _ => exact Nat.lt_of_lt_of_le h hle

theorem Closed.reduce_eq {rank : Nat} {stack : List Frame} (h : Closed rank stack)
    (e : Expr) : reduce rank stack e = (stack, e) := by
  match stack with
  | [] | .group :: _ => rfl
  | .apply _ op _ :: _ => rw [reduce, if_neg (Nat.not_le_of_lt h)]

theorem Closed.settle_eq {rank : Nat} {stack : List Frame} (h : Closed rank stack)
    (e : Expr) : settle stack e = operator stack e := by
  match stack with
  | [] | .group :: _ | .apply _ _ _ :: _ => rfl

/-- Reducing for a tight phrase first makes no difference for a looser one. -/
theorem reduce_reduce {j k : Nat} (hle : j ≤ k) (stack : List Frame) (e : Expr) :
    reduce j (reduce k stack e).1 (reduce k stack e).2 = reduce j stack e := by
  fun_induction reduce k stack e with
  | case1 e loc op left stack hk ih =>
      rw [ih]
      conv => rhs; rw [reduce, if_pos (Nat.le_trans hle hk)]
  | case2 => rfl
  | case3 => rfl

theorem unwind_reduce (k : Nat) (stack : List Frame) (e : Expr) :
    unwind (reduce k stack e).1 (reduce k stack e).2 = unwind stack e := by
  fun_induction reduce k stack e with
  | case1 e loc op left stack hk ih =>
      rw [ih]
      conv => rhs; rw [unwind]
  | case2 => rfl
  | case3 => rfl

/-- After an operand an operator comes next. -/
theorem settle_eq_operator (stack : List Frame) (e : Expr) :
    ∃ stack' e', settle stack e = operator stack' e' := by
  fun_induction settle stack e with
  | case1 loc stack e ih => exact ih
  | case2 stack e => exact ⟨stack, e, rfl⟩

/-- Unwinding stops at an open parenthesis, or where nothing is open. -/
theorem unwind_cases (stack : List Frame) (e : Expr) :
    (∃ e', unwind stack e = ([], e')) ∨ ∃ stack' e', unwind stack e = (.group :: stack', e') := by
  fun_induction unwind stack e with
  | case1 e loc op left stack ih => exact ih
  | case2 e loc stack ih => exact ih
  | case3 stack e happly hnegate =>
      match stack with
      | [] => exact .inl ⟨e, rfl⟩
      | .group :: stack => exact .inr ⟨stack, e, rfl⟩
      | .negate loc :: stack => exact absurd rfl (hnegate loc stack)
      | .apply loc op left :: stack => exact absurd rfl (happly loc op left stack)

/-- The lexemes are read as one operand, with whatever signs are open. -/
def Reads (ls : List Lexeme) (e : Expr) : Prop :=
  ∀ stack, (operand stack).shifts? ls = some (settle stack e)

/-- The lexemes are read as a phrase of the given rank: what they leave open
folds to the tree as soon as the phrase ends. -/
def Folds (rank : Nat) (ls : List Lexeme) (e : Expr) : Prop :=
  ∀ stack, Closed rank stack → ∃ stack' e',
    (operand stack).shifts? ls = some (operator stack' e') ∧
      reduce rank stack' e' = (stack, e)

theorem Reads.folds {ls : List Lexeme} {e : Expr} (h : Reads ls e) (rank : Nat) :
    Folds rank ls e := by
  intro stack hclosed
  refine ⟨stack, e, ?_, hclosed.reduce_eq e⟩
  rw [h stack, hclosed.settle_eq]

theorem Folds.loosen {j k : Nat} {ls : List Lexeme} {e : Expr} (h : Folds k ls e)
    (hle : j ≤ k) : Folds j ls e := by
  intro stack hclosed
  obtain ⟨stack', e', hshifts, hreduce⟩ := h stack (hclosed.mono hle)
  refine ⟨stack', e', hshifts, ?_⟩
  rw [← reduce_reduce hle, hreduce]
  exact hclosed.reduce_eq e

theorem reads_number {l : Lexeme} (hl : l.kind = .number) :
    Reads [l] (.number l.loc l.value) := by
  intro stack
  have hshift : (operand stack).shift? l = some (settle stack (.number l.loc l.value)) := by
    simp [shift?, hl]
  rw [shifts?, hshift]
  rfl

theorem Folds.paren {l r : Lexeme} {ls : List Lexeme} {e : Expr} (h : Folds 0 ls e)
    (hl : l.kind = .leftParen) (hr : r.kind = .rightParen) : Reads (l :: ls ++ [r]) e := by
  intro stack
  obtain ⟨stack', e', hshifts, hreduce⟩ := h (.group :: stack) trivial
  have hopen : (operand stack).shift? l = some (operand (.group :: stack)) := by
    simp [shift?, hl]
  have hunwind : unwind stack' e' = (.group :: stack, e) := by
    rw [← unwind_reduce 0, hreduce]
    rfl
  have hclose : (operator stack' e').shift? r = some (settle stack e) := by
    simp [shift?, hr, LexemeKind.operator?, hunwind]
  rw [List.cons_append, shifts?, hopen, Option.bind_some, shifts?_append hshifts, shifts?,
    hclose]
  rfl

theorem Reads.plus {l : Lexeme} {ls : List Lexeme} {e : Expr} (h : Reads ls e)
    (hl : l.kind = .plus) : Reads (l :: ls) e := by
  intro stack
  have hsign : (operand stack).shift? l = some (operand stack) := by simp [shift?, hl]
  rw [shifts?, hsign, Option.bind_some, h stack]

theorem Reads.minus {l : Lexeme} {ls : List Lexeme} {e : Expr} (h : Reads ls e)
    (hl : l.kind = .minus) : Reads (l :: ls) (negated l.loc e) := by
  intro stack
  have hsign : (operand stack).shift? l = some (operand (.negate l.loc :: stack)) := by
    simp [shift?, hl]
  rw [shifts?, hsign, Option.bind_some, h, settle]

/-- One more link of a chain. The operator completes what is open of the left
operand, and waits on the stack until the right operand is complete. -/
theorem Folds.chain {l : Lexeme} {op : Operator} {ls rs : List Lexeme} {left right : Expr}
    (hleft : Folds op.rank ls left) (hop : l.kind.operator? = some op)
    (hright : Folds (op.rank + 1) rs right) :
    Folds op.rank (ls ++ l :: rs) (.binary l.loc op left right) := by
  intro stack hclosed
  obtain ⟨stack₁, e₁, hshifts₁, hreduce₁⟩ := hleft stack hclosed
  have hwaiting : Closed (op.rank + 1) (.apply l.loc op left :: stack) := Nat.lt_succ_self _
  obtain ⟨stack₂, e₂, hshifts₂, hreduce₂⟩ := hright _ hwaiting
  have hshift : (operator stack₁ e₁).shift? l =
      some (operand (.apply l.loc op left :: stack)) := by
    simp [shift?, hop, hreduce₁]
  refine ⟨stack₂, e₂, ?_, ?_⟩
  · rw [shifts?_append hshifts₁, shifts?, hshift, Option.bind_some, hshifts₂]
  · rw [← reduce_reduce (Nat.le_succ op.rank), hreduce₂, reduce, if_pos (Nat.le_refl _)]
    exact hclosed.reduce_eq _

/-- The parser follows every derivation. Induction over the derivation; a
phrase without binary operators is read as an operand, and every phrase folds. -/
theorem reads_of_derives {p : Phrase} {ls : List Lexeme} {e : Expr} (h : Derives p ls e) :
    (Phrase.unary.rank ≤ p.rank → Reads ls e) ∧ Folds p.rank ls e := by
  induction h with
  | number hl =>
      have hreads := reads_number hl
      exact ⟨fun _ => hreads, hreads.folds _⟩
  | paren hl _ hr ih =>
      have hreads := ih.2.paren hl hr
      exact ⟨fun _ => hreads, hreads.folds _⟩
  | plus hl _ ih =>
      have hreads := (ih.1 (Nat.le_refl _)).plus hl
      exact ⟨fun _ => hreads, hreads.folds _⟩
  | minus hl _ ih =>
      have hreads := (ih.1 (Nat.le_refl _)).minus hl
      exact ⟨fun _ => hreads, hreads.folds _⟩
  | single hq _ ih =>
      have hrank := Phrase.rank_of_tighter hq
      exact ⟨fun hle => ih.1 (by omega), ih.2.loosen (by omega)⟩
  | @chain p q l op ls rs left right hq _ hop _ ihleft ihright =>
      obtain ⟨hkind, rfl⟩ := Phrase.operator?_eq_some_iff.mp hop
      have hrank := Phrase.rank_of_tighter hq
      have hfolds := ihright.2
      rw [hrank, Phrase.rank_ofOperator] at hfolds
      have hleft := ihleft.2
      rw [Phrase.rank_ofOperator] at hleft ⊢
      refine ⟨fun hle => absurd hle (by cases op <;> decide), hleft.chain hkind hfolds⟩

/-- After the lexemes of an expression the parser is ready to finish, and
nothing but the expression remains. -/
theorem finish_of_derives {ls : List Lexeme} {e : Expr} (h : Derives .equality ls e) :
    ∃ s, initial.shifts? ls = some s ∧ s.finish = .ok e := by
  obtain ⟨stack, e', hshifts, hreduce⟩ := (reads_of_derives h).2 [] trivial
  have hunwind : unwind stack e' = ([], e) := by
    rw [← unwind_reduce Phrase.equality.rank, hreduce]
    rfl
  exact ⟨operator stack e', hshifts, by simp [finish, hunwind]⟩

theorem shift?_eof (s : State) {l : Lexeme} (hl : l.kind = .eof) : s.shift? l = none := by
  cases s <;> simp [shift?, hl, LexemeKind.operator?]

/-- Up to an end marker, neither the lexemes after it nor the marker that stands
for the end of the list have a say. -/
theorem run_before_eof (s : State) (ls : List Lexeme) {l : Lexeme} (hl : l.kind = .eof) :
    (∃ e left, left ≠ [] ∧ ∀ eof rest, run eof s (ls ++ l :: rest) = (.ok e, left ++ rest)) ∨
      ∃ err, ∀ eof rest, (run eof s (ls ++ l :: rest)).1 = .error err := by
  induction ls generalizing s with
  | nil =>
      cases hfinish : s.finish with
      | ok e =>
          refine .inl ⟨e, [l], List.cons_ne_nil _ _, ?_⟩
          intro eof rest
          simp [run, shift?_eof s hl, hfinish]
      | error cause =>
          refine .inr ⟨.ofLexeme cause l, ?_⟩
          intro eof rest
          simp [run, shift?_eof s hl, hfinish]
  | cons l' ls ih =>
      cases hshift : s.shift? l' with
      | some s' => simpa [run, hshift] using ih s'
      | none =>
          cases hfinish : s.finish with
          | ok e =>
              refine .inl ⟨e, l' :: ls ++ [l], by simp, ?_⟩
              intro eof rest
              simp [run, hshift, hfinish]
          | error cause =>
              refine .inr ⟨.ofLexeme cause l', ?_⟩
              intro eof rest
              simp [run, hshift, hfinish]

end ArithAsm.Parser

namespace ArithAsm

open ArithAsm.Parser

/-- The lexeme at the cursor when `rest` is left of the list `ls`. -/
def following (ls rest : List Lexeme) : Lexeme :=
  peek { ofLexemes ls with rest }

theorem parse_of_run_error {allowTrailing : Bool} {ls rest : List Lexeme} {err : ParseError}
    (h : run (.eofAt (ofLexemes ls).endLoc) .initial ls = (.error err, rest)) :
    parse allowTrailing ls = .error err := by
  have hrest : (ofLexemes ls).rest = ls := rfl
  rw [parse, expression, hrest, h]

theorem parse_of_run_ok {allowTrailing : Bool} {ls rest : List Lexeme} {e : Expr}
    (h : run (.eofAt (ofLexemes ls).endLoc) .initial ls = (.ok e, rest)) :
    parse allowTrailing ls =
      if allowTrailing = true ∨ (following ls rest).kind = .eof then .ok e
      else .error (.ofLexeme .trailingInput (following ls rest)) := by
  have hrest : (ofLexemes ls).rest = ls := rfl
  rw [parse, expression, hrest, h]
  simp only [Bool.or_eq_true, decide_eq_true_eq]
  split
  case isTrue hend => exact (if_pos hend).symm
  case isFalse hend => exact (if_neg hend).symm

/-- What lies before the first end marker. -/
def beforeEof (ls : List Lexeme) : List Lexeme :=
  ls.takeWhile (·.kind ≠ .eof)

theorem beforeEof_append {ls rest : List Lexeme} (hls : ∀ l ∈ ls, l.kind ≠ .eof)
    (hrest : ∀ l ∈ rest.head?, l.kind = .eof) : beforeEof (ls ++ rest) = ls := by
  have hall : ∀ l ∈ ls, decide (l.kind ≠ .eof) = true := by simpa using hls
  rw [beforeEof, List.takeWhile_append_of_pos hall]
  cases rest with
  | nil => simp
  | cons l rest => simp [hrest l rfl]

/-- The list is what lies before the first end marker, and then nothing or an
end marker. -/
theorem beforeEof_split (ls : List Lexeme) :
    ∃ rest, ls = beforeEof ls ++ rest ∧ ∀ l ∈ rest.head?, l.kind = .eof := by
  refine ⟨ls.dropWhile (·.kind ≠ .eof), List.takeWhile_append_dropWhile.symm, ?_⟩
  intro l hl
  have hnot := List.head?_dropWhile_not (·.kind ≠ .eof) ls
  rw [Option.mem_def.mp hl] at hnot
  simpa using hnot

theorem derives_of_parse {ls : List Lexeme} {e : Expr} (h : parse false ls = .ok e) :
    Derives .equality (beforeEof ls) e := by
  cases hrun : run (.eofAt (ofLexemes ls).endLoc) .initial ls with
  | mk answer rest =>
      cases answer with
      | error err => rw [parse_of_run_error hrun] at h; cases h
      | ok e' =>
          rw [parse_of_run_ok hrun] at h
          split at h
          case isFalse => cases h
          case isTrue hend =>
            cases h
            obtain ⟨used, hused, hderives⟩ := run_derives spells_initial hrun
            rw [List.nil_append] at hderives
            have hrest : ∀ l ∈ rest.head?, l.kind = .eof := by
              intro l hl
              simpa [following, peek, Option.mem_def.mp hl] using hend
            rwa [hused, beforeEof_append hderives.kind_ne_eof hrest]

theorem parse_whole_of_derives (allowTrailing : Bool) {ls : List Lexeme} {e : Expr}
    (h : Derives .equality (beforeEof ls) e) : parse allowTrailing ls = .ok e := by
  obtain ⟨rest, hsplit, hrest⟩ := beforeEof_split ls
  obtain ⟨s, hshifts, hfinish⟩ := finish_of_derives h
  have hrun : run (.eofAt (ofLexemes ls).endLoc) .initial ls = (.ok e, rest) := by
    conv => lhs; arg 3; rw [hsplit]
    rw [run_of_shifts hshifts]
    cases rest with
    | nil => simp [run, hfinish]
    | cons l rest => simp [run, shift?_eof s (hrest l rfl), hfinish]
  rw [parse_of_run_ok hrun, if_pos]
  right
  cases rest with
  | nil => rfl
  | cons l rest => exact hrest l rfl

theorem parse_of_derives {ls : List Lexeme} {e : Expr}
    (h : Derives .equality (beforeEof ls) e) : parse false ls = .ok e :=
  parse_whole_of_derives false h

/-- What follows an end marker does not matter, for the answer or for the error. -/
theorem parse_append_eof (allowTrailing : Bool) (ls : List Lexeme) {eof : Lexeme}
    (heof : eof.kind = .eof) (rest rest' : List Lexeme) :
    parse allowTrailing (ls ++ eof :: rest) = parse allowTrailing (ls ++ eof :: rest') := by
  rcases run_before_eof .initial ls heof with ⟨e, left, hleft, hrun⟩ | ⟨err, hrun⟩
  · obtain ⟨l, left, rfl⟩ := List.exists_cons_of_ne_nil hleft
    rw [parse_of_run_ok (hrun _ rest), parse_of_run_ok (hrun _ rest')]
    rfl
  · rw [parse_of_run_error (Prod.ext (hrun _ rest) rfl),
      parse_of_run_error (Prod.ext (hrun _ rest') rfl)]

/-- Strict parsing accepts exactly the grammar: it returns a tree if and only if
the lexemes before the first end marker derive it. No other tree is derived
from them, and what comes after an end marker has no influence. -/
theorem parse_iff_derives (ls : List Lexeme) :
    (∀ e, parse false ls = .ok e ↔ Derives .equality (beforeEof ls) e) ∧
    (∀ e e', Derives .equality (beforeEof ls) e → Derives .equality (beforeEof ls) e' →
      e = e') ∧
    ∀ eof rest rest', eof.kind = .eof →
      parse false (ls ++ eof :: rest) = parse false (ls ++ eof :: rest') := by
  refine ⟨fun e => ⟨derives_of_parse, parse_of_derives⟩, ?_, ?_⟩
  · intro e e' he he'
    have heq := (parse_of_derives he).symm.trans (parse_of_derives he')
    exact Except.ok.inj heq
  · intro eof rest rest' heof
    exact parse_append_eof false ls heof rest rest'

/-- The lexemes of `- 2 - 3`: one sign and one operator. -/
def signedDifference : List Lexeme := [
  ⟨.minus, "-", 0, ⟨1, 1, 0⟩⟩, ⟨.number, "2", 2, ⟨1, 3, 2⟩⟩,
  ⟨.minus, "-", 0, ⟨1, 5, 4⟩⟩, ⟨.number, "3", 3, ⟨1, 7, 6⟩⟩]

theorem parse_signedDifference :
    Derives .equality (beforeEof (signedDifference ++ [.eofAt ⟨1, 8, 7⟩]))
      (.binary ⟨1, 5, 4⟩ .sub
        (.binary ⟨1, 1, 0⟩ .sub (.number ⟨1, 1, 0⟩ 0) (.number ⟨1, 3, 2⟩ 2))
        (.number ⟨1, 7, 6⟩ 3)) ∧
    parse false (signedDifference ++ .eofAt ⟨1, 8, 7⟩ :: signedDifference) =
      parse false (signedDifference ++ [.eofAt ⟨1, 8, 7⟩]) := by
  obtain ⟨haccepts, _, _⟩ := parse_iff_derives (signedDifference ++ [.eofAt ⟨1, 8, 7⟩])
  obtain ⟨_, _, hafter⟩ := parse_iff_derives signedDifference
  exact ⟨(haccepts _).mp rfl, hafter _ _ _ rfl⟩

end ArithAsm
