import ArithAsm.Compilation
import ArithAsm.Proofs.Decimal
import ArithAsm.Proofs.Parsing
import ArithAsm.Proofs.Spelling

/-!
Expressions written with as few parentheses as possible. Reading what was
written gives the same expression, up to the locations of its nodes, so every
expression is the meaning of some text.
-/

namespace ArithAsm

namespace Tree

variable {ν ω : Type}

/-- The tree without its locations: all of them are the start of a text. -/
def unlocated : Tree ν ω → Tree ν ω
  | .number _ n => .number .start n
  | .binary _ op l r => .binary .start op l.unlocated r.unlocated

/-- The operator at the root. -/
def operator? : Tree ν ω → Option ω
  | .number _ _ => none
  | .binary _ op _ _ => some op

end Tree

namespace Expr

def wrapped (parens : Bool) (t : Text) : Text :=
  if parens then "(" ++ t ++ ")" else t

/-- The expression with numbers in decimal and each operator between its
operands, with some spaces on either side of it. A child is put in parentheses
if its operator binds less tightly than that of its parent, or equally tightly
and it is the right child. -/
def printed (gap : Nat) : Expr → Text
  | .number _ n => numeral n
  | .binary _ op l r =>
      wrapped (l.operator?.any (·.rank < op.rank)) (printed gap l) ++
        (Text.spaces gap ++ (Text.ofString op.symbol ++ (Text.spaces gap ++
          wrapped (r.operator?.any (·.rank ≤ op.rank)) (printed gap r))))

end Expr

/-- The phrase that an expression is when it is written without parentheses. -/
def Phrase.ofExpr (e : Expr) : Phrase :=
  match e.operator? with
  | none => .primary
  | some op => .ofOperator op

theorem Phrase.rank_le_primary (p : Phrase) : p.rank ≤ primary.rank := by
  cases p <;> decide

/-- An expression without parentheses is at least as tight as a phrase if its
operator is. -/
theorem Phrase.rank_le_ofExpr {p : Phrase} {e : Expr} {loose : Operator → Bool}
    (hloose : ∀ op, loose op = false → p.rank ≤ op.rank)
    (h : e.operator?.any loose = false) : p.rank ≤ (ofExpr e).rank := by
  unfold ofExpr
  cases hop : e.operator? with
  | none => exact p.rank_le_primary
  | some op =>
      rw [hop] at h
      simpa using hloose op h

def LexemeKind.ofOperator : Operator → LexemeKind
  | .add => .plus
  | .sub => .minus
  | .mul => .star
  | .div => .slash
  | .eq => .eq
  | .ne => .ne
  | .lt => .lt
  | .le => .le
  | .gt => .gt
  | .ge => .ge

namespace Expr

/-- Wherever the text stands, with blanks in front and not right before a digit,
it is read as lexemes that derive the expression. -/
structure ReadsBack (checked : Bool) (p : Phrase) (t : Text) (e : Expr) : Prop where
  head : ∃ r rs, t.ascii = r :: rs ∧ r.char ≠ '='
  lexemes : ∀ (loc : Location) (rest : List Rune) {blanks : List Rune},
    (∀ r ∈ blanks, isBlank r.char = true) → (∀ r ∈ rest.head?, Lexer.isDigit r = false) →
    ∃ ls loc' e',
      Lexer.Yields checked ⟨blanks ++ (t.ascii ++ rest), loc⟩ ls ⟨rest, loc'⟩ ∧
      Derives p ls e' ∧ e'.unlocated = e.unlocated

variable {checked : Bool} {p : Phrase} {t : Text} {e : Expr}

theorem ReadsBack.loosen {q : Phrase} (h : ReadsBack checked q t e) (hle : p.rank ≤ q.rank) :
    ReadsBack checked p t e := by
  refine ⟨h.head, ?_⟩
  intro loc rest blanks hblanks hrest
  obtain ⟨ls, loc', e', hls, hderives, he'⟩ := h.lexemes loc rest hblanks hrest
  exact ⟨ls, loc', e', hls, hderives.loosen hle, he'⟩

theorem readsBack_number (checked : Bool) (loc : Location) (n : UInt64) :
    ReadsBack checked .primary (numeral n) (.number loc n) := by
  have hspells : LexemeKind.number.Spells (numeral n) :=
    ⟨Decimal.ofNat_ne_nil _, fun b hb => Decimal.isDigit_of_mem_ofNat hb⟩
  have hvalue : Decimal.value (numeral n) = n.toNat := Decimal.value_ofNat n.toNat
  refine ⟨?_, ?_⟩
  · obtain ⟨b, t, hbt⟩ := List.exists_cons_of_ne_nil hspells.1
    have hdigit := Lexer.isDigit_of_digit (hspells.2 b (by simp [hbt]))
    refine ⟨.ofAscii b, Text.ascii t, by rw [hbt, Text.ascii_cons], ?_⟩
    intro hequals
    rw [Lexer.isDigit, hequals] at hdigit
    cases hdigit
  · intro loc rest blanks hblanks hrest
    have hfits : checked = true → LexemeKind.number = .number →
        Decimal.value (numeral n) < UInt64.size := by
      intro _ _
      rw [hvalue]
      exact n.toNat_lt
    have hread := Lexer.yields_spelled hblanks hspells loc rest hrest hfits
    refine ⟨_, _, _, hread, .number rfl, ?_⟩
    simp [Tree.unlocated, Lexeme.spelled, hvalue]

theorem forall_head?_append {P : Rune → Prop} {rs rest : List Rune} (hrs : ∀ r ∈ rs, P r)
    (hrest : rs = [] → ∀ r ∈ rest.head?, P r) : ∀ r ∈ (rs ++ rest).head?, P r := by
  cases rs with
  | nil => exact hrest rfl
  | cons r rs =>
      intro r' hr'
      obtain rfl := Option.some.inj hr'
      exact hrs r List.mem_cons_self

theorem ReadsBack.paren (h : ReadsBack checked .equality t e) :
    ReadsBack checked .primary ("(" ++ t ++ ")") e := by
  refine ⟨⟨_, _, rfl, by decide⟩, ?_⟩
  intro loc rest blanks hblanks hrest
  have hleft : LexemeKind.leftParen.symbol? = some "(" := rfl
  have hright : LexemeKind.rightParen.symbol? = some ")" := rfl
  have hnone : ∀ r ∈ ([] : List Rune), isBlank r.char = true := by
    simp
  have hclosing : ∀ r ∈ (Text.ascii ")" ++ rest).head?, Lexer.isDigit r = false :=
    forall_head?_append (by decide) fun _ => hrest
  obtain ⟨l, loc₁, hl, hopen⟩ := Lexer.yields_symbol hblanks hleft loc _ fun _ _ => rfl
  obtain ⟨ls, loc₂, e', hls, hderives, he'⟩ := h.lexemes loc₁ _ hnone hclosing
  obtain ⟨r, loc₃, hr, hclose⟩ := Lexer.yields_symbol hnone hright loc₂ rest fun _ _ => rfl
  refine ⟨[l] ++ ls ++ [r], loc₃, e', ?_, .paren hl hderives hr, he'⟩
  rw [Text.ascii_append, Text.ascii_append, List.append_assoc, List.append_assoc]
  exact (hopen.trans hls).trans hclose

theorem ReadsBack.wrapped {q : Phrase} (h : ReadsBack checked p t e) {parens : Bool}
    (hparens : parens = false → q.rank ≤ p.rank) :
    ReadsBack checked q (Expr.wrapped parens t) e := by
  cases parens with
  | false => exact h.loosen (hparens rfl)
  | true =>
      have hequality : ReadsBack checked .equality t e := h.loosen (Nat.zero_le _)
      exact hequality.paren.loosen q.rank_le_primary

end Expr

namespace LexemeKind

theorem extendedBy_ofOperator (op : Operator) {r : Rune} (h : r.char ≠ '=') :
    (ofOperator op).extendedBy r = false := by
  cases op <;> simp [ofOperator, extendedBy, h]

theorem symbol?_ofOperator (op : Operator) : (ofOperator op).symbol? = some op.symbol := by
  cases op <;> rfl

theorem operator?_ofOperator (op : Operator) :
    (Phrase.ofOperator op).operator? (ofOperator op) = some op := by
  cases op <;> rfl

end LexemeKind

namespace Expr

theorem eq_of_mem_spaces {n : Nat} {r : Rune} (h : r ∈ (Text.spaces n).ascii) :
    r = .ofAscii 32 := by
  obtain ⟨b, hb, rfl⟩ := List.mem_map.mp h
  rw [List.eq_of_mem_replicate hb]

/-- Spaces, then an operator: nothing that a number could go on with. -/
theorem head_operator (op : Operator) (gap : Nat) (rest : List Rune) :
    ∀ r ∈ ((Text.spaces gap).ascii ++ (Text.ascii op.symbol ++ rest)).head?,
      Lexer.isDigit r = false := by
  have hsymbol : Text.ascii op.symbol ≠ [] ∧
      ∀ r ∈ Text.ascii op.symbol, Lexer.isDigit r = false := by
    cases op <;> decide
  apply forall_head?_append
  · intro r hr
    rw [eq_of_mem_spaces hr]
    decide
  · intro _
    exact forall_head?_append hsymbol.2 fun hnil => absurd hnil hsymbol.1

/-- Spaces, then an operand: nothing that the operator before could go on with. -/
theorem ReadsBack.head_operand (h : ReadsBack checked p t e) (op : Operator) (gap : Nat)
    (rest : List Rune) :
    ∀ r ∈ ((Text.spaces gap).ascii ++ (t.ascii ++ rest)).head?,
      (LexemeKind.ofOperator op).extendedBy r = false := by
  obtain ⟨r₀, rs, ht, hr₀⟩ := h.head
  apply forall_head?_append
  · intro r hr
    rw [eq_of_mem_spaces hr]
    exact LexemeKind.extendedBy_ofOperator op (by decide)
  · intro _ r hr
    rw [ht] at hr
    obtain rfl := Option.some.inj hr
    exact LexemeKind.extendedBy_ofOperator op hr₀

theorem ReadsBack.chain {op : Operator} {q : Phrase}
    (hq : (Phrase.ofOperator op).tighter? = some q) {s u : Text} {l r : Expr}
    (hl : ReadsBack checked (.ofOperator op) s l) (hr : ReadsBack checked q u r)
    (loc : Location) (gap : Nat) :
    ReadsBack checked (.ofOperator op)
      (s ++ (Text.spaces gap ++ (Text.ofString op.symbol ++ (Text.spaces gap ++ u))))
      (.binary loc op l r) := by
  obtain ⟨r₀, rs₀, hs, hr₀⟩ := hl.head
  refine ⟨⟨r₀, _, by rw [Text.ascii_append, hs, List.cons_append], hr₀⟩, ?_⟩
  intro loc rest blanks hblanks hrest
  have hspaces : ∀ r ∈ (Text.spaces gap).ascii, isBlank r.char = true := by
    intro r hr
    rw [eq_of_mem_spaces hr]
    decide
  -- the left operand, the operator and the right operand are read one after the other
  obtain ⟨ls, loc₁, l', hls, hleft, hl'⟩ :=
    hl.lexemes loc _ hblanks (head_operator op gap ((Text.spaces gap).ascii ++ (u.ascii ++ rest)))
  obtain ⟨o, loc₂, ho, hsymbol⟩ :=
    Lexer.yields_symbol hspaces (LexemeKind.symbol?_ofOperator op) loc₁ _
      (hr.head_operand op gap rest)
  obtain ⟨rs, loc₃, r', hrs, hright, hr'⟩ := hr.lexemes loc₂ rest hspaces hrest
  have hop : (Phrase.ofOperator op).operator? o.kind = some op := by
    rw [ho, LexemeKind.operator?_ofOperator]
  refine ⟨ls ++ o :: rs, loc₃, .binary o.loc op l' r', ?_, .chain hq hleft hop hright, ?_⟩
  · simp only [Text.ascii_append, List.append_assoc]
    exact hls.trans (hsymbol.trans hrs)
  · simp [Tree.unlocated, hl', hr']

/-- Induction over the expression. A child without parentheses is a phrase that is
tight enough for its place: as tight as the operator on the left, tighter on the
right. -/
theorem printed_readsBack (checked : Bool) (gap : Nat) (e : Expr) :
    ReadsBack checked (.ofExpr e) (e.printed gap) e := by
  induction e with
  | number loc n => exact readsBack_number checked loc n
  | binary loc op l r ihl ihr =>
      obtain ⟨q, hq⟩ : ∃ q, (Phrase.ofOperator op).tighter? = some q := by
        cases op <;> exact ⟨_, rfl⟩
      have hrank := Phrase.rank_of_tighter hq
      rw [Phrase.rank_ofOperator] at hrank
      have hleft : ReadsBack checked (.ofOperator op)
          (wrapped (l.operator?.any (·.rank < op.rank)) (printed gap l)) l := by
        apply ihl.wrapped
        apply Phrase.rank_le_ofExpr
        intro op' hop'
        simpa using hop'
      have hright : ReadsBack checked q
          (wrapped (r.operator?.any (·.rank ≤ op.rank)) (printed gap r)) r := by
        apply ihr.wrapped
        apply Phrase.rank_le_ofExpr
        intro op' hop'
        simp only [decide_eq_false_iff_not, Nat.not_le] at hop'
        omega
      exact hleft.chain hq hright loc gap

theorem isAscii_wrapped {parens : Bool} {t : Text} (h : t.isAscii = true) :
    (wrapped parens t).isAscii = true := by
  cases parens with
  | false => exact h
  | true =>
      simp only [wrapped, if_true, Text.isAscii_append, h]
      decide

theorem isAscii_printed (gap : Nat) (e : Expr) : (e.printed gap).isAscii = true := by
  induction e with
  | number loc n =>
      apply List.all_eq_true.mpr
      intro b hb
      have hdigit := Decimal.bounds_of_isDigit (Decimal.isDigit_of_mem_ofNat hb)
      exact decide_eq_true (UInt8.lt_of_le_of_lt hdigit.2 (by decide))
  | binary loc op l r ihl ihr =>
      have hspaces : (Text.spaces gap).isAscii = true := by
        apply List.all_eq_true.mpr
        intro b hb
        rw [List.eq_of_mem_replicate hb]
        decide
      have hsymbol : (Text.ofString op.symbol).isAscii = true := by
        cases op <;> decide
      simp only [printed, Text.isAscii_append, isAscii_wrapped ihl, isAscii_wrapped ihr, hspaces,
        hsymbol, Bool.and_self]

end Expr

/-- An expression that is written with the fewest parentheses, and with any
spacing of its operators, is read as itself up to locations. The options of the
reader make no difference. -/
theorem readExpr_printed (e : Expr) (gap : Nat) (opts : ReadOptions) :
    ∃ e', readExpr opts (e.printed gap) = .ok e' ∧ e'.unlocated = e.unlocated := by
  have hback : Expr.ReadsBack opts.checkedNumbers .equality (e.printed gap) e :=
    (e.printed_readsBack opts.checkedNumbers gap).loosen (Nat.zero_le _)
  obtain ⟨ls, loc, e', hls, hderives, he'⟩ :=
    hback.lexemes .start [] (fun _ h => absurd h List.not_mem_nil) (fun _ h => by cases h)
  have htokens : tokenize opts.checkedNumbers (e.printed gap) = .ok (ls ++ [.eofAt loc]) := by
    rw [tokenize, Lexer.ofText, Text.runes_of_isAscii (e.isAscii_printed gap)]
    simpa using hls.lexemes_eq
  have hparse : parse opts.allowTrailing (ls ++ [.eofAt loc]) = .ok e' := by
    apply parse_whole_of_derives
    rwa [beforeEof_append hderives.kind_ne_eof fun l hl => by cases hl; rfl]
  refine ⟨e', ?_, he'⟩
  simp only [readExpr, readLexemes, readLexemeList, htokens, hparse, Result.mapError_ok,
    Result.ok_bind]

example : Expr.printed 1
    (.binary .start .sub (.number .start 1)
      (.binary .start .sub (.number .start 2)
        (.binary .start .mul (.number .start 3) (.number .start 4)))) =
    "1 - (2 - 3 * 4)" := by
  decide +kernel

end ArithAsm
