import ArithAsm.Expr.Parser

/-!
The grammar of expressions, as a relation between sequences of lexemes and the
trees they spell. From loosest to tightest the phrases are equality,
relational, additive, multiplicative, unary and primary; an expression is an
equality phrase. A binary phrase is a chain of next tighter phrases that is
folded to the left. The relation says nothing about how a tree is found.
-/

namespace ArithAsm

inductive Phrase where
  | equality
  | relational
  | additive
  | multiplicative
  | unary
  | primary
  deriving DecidableEq, Repr

namespace Phrase

def tighter? : Phrase → Option Phrase
  | equality => some relational
  | relational => some additive
  | additive => some multiplicative
  | multiplicative => some unary
  | unary => some primary
  | primary => none

/-- The operators that join the operands of a binary phrase. -/
def operator? : Phrase → LexemeKind → Option Operator
  | equality, .eq => some .eq
  | equality, .ne => some .ne
  | relational, .lt => some .lt
  | relational, .le => some .le
  | relational, .gt => some .gt
  | relational, .ge => some .ge
  | additive, .plus => some .add
  | additive, .minus => some .sub
  | multiplicative, .star => some .mul
  | multiplicative, .slash => some .div
  | _, _ => none

/-- The position of the phrase, loosest first. -/
def rank : Phrase → Nat
  | equality => 0
  | relational => 1
  | additive => 2
  | multiplicative => 3
  | unary => 4
  | primary => 5

end Phrase

/-- Whether an operand comes next: after an operator, a sign or an opening
parenthesis. -/
def LexemeKind.opensOperand (k : LexemeKind) : Bool :=
  k.operator?.isSome || k = leftParen

/-- Which trees a sequence of lexemes spells as a given phrase. Binary nodes
are located at their operator, numbers at their lexeme. A plus sign leaves no
trace; a minus sign subtracts from a zero that stands where the sign does. -/
inductive Derives : Phrase → List Lexeme → Expr → Prop
  | number {l : Lexeme} (hl : l.kind = .number) :
      Derives .primary [l] (.number l.loc l.value)
  | paren {l r : Lexeme} {ls : List Lexeme} {e : Expr} (hl : l.kind = .leftParen)
      (he : Derives .equality ls e) (hr : r.kind = .rightParen) :
      Derives .primary (l :: ls ++ [r]) e
  | plus {l : Lexeme} {ls : List Lexeme} {e : Expr} (hl : l.kind = .plus)
      (he : Derives .unary ls e) : Derives .unary (l :: ls) e
  | minus {l : Lexeme} {ls : List Lexeme} {e : Expr} (hl : l.kind = .minus)
      (he : Derives .unary ls e) :
      Derives .unary (l :: ls) (.binary l.loc .sub (.number l.loc 0) e)
  | single {p q : Phrase} {ls : List Lexeme} {e : Expr} (hq : p.tighter? = some q)
      (he : Derives q ls e) : Derives p ls e
  | chain {p q : Phrase} {l : Lexeme} {op : Operator} {ls rs : List Lexeme}
      {left right : Expr} (hq : p.tighter? = some q) (hleft : Derives p ls left)
      (hop : p.operator? l.kind = some op) (hright : Derives q rs right) :
      Derives p (ls ++ l :: rs) (.binary l.loc op left right)

namespace Phrase

theorem rank_of_tighter {p q : Phrase} (h : p.tighter? = some q) : q.rank = p.rank + 1 := by
  cases p <;> cases h <;> rfl

/-- Every phrase but the tightest has a tighter one. -/
theorem exists_tighter {p q : Phrase} (h : p.rank < q.rank) :
    ∃ p', p.tighter? = some p' := by
  cases p with
  | primary => cases q <;> simp [rank] at h
  | _ => exact ⟨_, rfl⟩

/-- The phrase an operator belongs to. -/
def ofOperator : Operator → Phrase
  | .eq | .ne => equality
  | .lt | .le | .gt | .ge => relational
  | .add | .sub => additive
  | .mul | .div => multiplicative

@[simp] theorem rank_ofOperator (op : Operator) : (ofOperator op).rank = op.rank := by
  cases op <;> rfl

/-- A lexeme that stands for an operator does so in exactly one phrase. -/
theorem operator?_eq_some_iff {p : Phrase} {k : LexemeKind} {op : Operator} :
    p.operator? k = some op ↔ k.operator? = some op ∧ p = ofOperator op := by
  constructor
  · intro h
    cases p <;> cases k <;> cases h <;> exact ⟨rfl, rfl⟩
  · rintro ⟨h, rfl⟩
    cases k <;> cases h <;> rfl

theorem rank_injective {p q : Phrase} (h : p.rank = q.rank) : p = q := by
  cases p <;> cases q <;> first | rfl | cases h

end Phrase

namespace Derives

/-- A phrase is also every looser one. -/
theorem loosen {p q : Phrase} {ls : List Lexeme} {e : Expr} (h : Derives q ls e)
    (hle : p.rank ≤ q.rank) : Derives p ls e := by
  obtain ⟨n, hn⟩ := Nat.exists_eq_add_of_le hle
  induction n generalizing p with
  | zero => rwa [Phrase.rank_injective hn.symm]
  | succ n ih =>
      obtain ⟨p', hp'⟩ := Phrase.exists_tighter (show p.rank < q.rank by omega)
      have hrank := Phrase.rank_of_tighter hp'
      exact .single hp' (ih (by omega) (by omega))

/-- The lexemes of a phrase are numbers, parentheses and operators. -/
theorem kind_cases {p : Phrase} {ls : List Lexeme} {e : Expr} (h : Derives p ls e) :
    ∀ l ∈ ls, l.kind = .number ∨ l.kind = .leftParen ∨ l.kind = .rightParen ∨
      ∃ op, l.kind.operator? = some op := by
  induction h with
  | number hl => simp [hl]
  | paren hl _ hr ih =>
      intro l hmem
      simp only [List.cons_append, List.mem_cons, List.mem_append, List.not_mem_nil,
        or_false] at hmem
      rcases hmem with rfl | hmem | rfl
      · simp [hl]
      · exact ih l hmem
      · simp [hr]
  | plus hl _ ih | minus hl _ ih =>
      intro l hmem
      rcases List.mem_cons.mp hmem with rfl | hmem
      · simp [hl, LexemeKind.operator?]
      · exact ih l hmem
  | single _ _ ih => exact ih
  | chain _ _ hop _ ihleft ihright =>
      intro l hmem
      rcases List.mem_append.mp hmem with hmem | hmem
      · exact ihleft l hmem
      rcases List.mem_cons.mp hmem with rfl | hmem
      · exact .inr (.inr (.inr ⟨_, (Phrase.operator?_eq_some_iff.mp hop).1⟩))
      · exact ihright l hmem

theorem kind_ne_eof {p : Phrase} {ls : List Lexeme} {e : Expr} (h : Derives p ls e) :
    ∀ l ∈ ls, l.kind ≠ .eof := by
  intro l hl heof
  have hcases := h.kind_cases l hl
  simp [heof, LexemeKind.operator?] at hcases

/-- After a phrase no operand comes next. -/
theorem last_lexeme {p : Phrase} {ls : List Lexeme} {e : Expr} (h : Derives p ls e) :
    ∃ front l, ls = front ++ [l] ∧ l.kind.opensOperand = false := by
  induction h with
  | @number l hl => exact ⟨[], l, rfl, by rw [hl]; rfl⟩
  | @paren l r ls e hl _ hr _ => exact ⟨l :: ls, r, rfl, by rw [hr]; rfl⟩
  | @plus l _ _ _ _ ih | @minus l _ _ _ _ ih =>
      obtain ⟨front, last, rfl, hlast⟩ := ih
      exact ⟨l :: front, last, rfl, hlast⟩
  | single _ _ ih => exact ih
  | @chain _ _ l _ ls _ _ _ _ _ _ _ _ ih =>
      obtain ⟨front, last, rfl, hlast⟩ := ih
      exact ⟨ls ++ l :: front, last, by simp, hlast⟩

end Derives

end ArithAsm
