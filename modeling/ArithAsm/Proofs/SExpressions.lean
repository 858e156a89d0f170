import ArithAsm.Proofs.Distinct

/-!
The parenthesised form of a tree identifies the tree. Every part of it ends where
the next byte cannot belong to it: a number before a byte that is no digit, an
operator before a space, an operation at its closing parenthesis. So two forms that
agree as texts agree part by part, also where an operator is shown as a number in
parentheses or where one symbol begins another.
-/

namespace ArithAsm

namespace Decimal

theorem ofNat_injective : Function.Injective ofNat :=
  Function.LeftInverse.injective value_ofNat

/-- A number never starts with a minus sign. -/
theorem cons_ne_ofNat (t : Text) (n : Nat) : 45 :: t ≠ ofNat n := by
  intro h
  have hdigit : isDigit 45 = true := isDigit_of_mem_ofNat (h ▸ List.mem_cons_self)
  cases hdigit

theorem ofInt_injective : Function.Injective ofInt := by
  intro a b h
  unfold ofInt at h
  split at h <;> split at h
  · have habs := ofNat_injective (List.cons.inj h).2
    omega
  · exact absurd h (cons_ne_ofNat _ _)
  · exact absurd h.symm (cons_ne_ofNat _ _)
  · have habs := ofNat_injective h
    omega

theorem byte_of_mem_ofInt {n : Int} {b : UInt8} (h : b ∈ ofInt n) :
    b = 45 ∨ isDigit b = true := by
  unfold ofInt at h
  split at h
  · rcases List.mem_cons.mp h with hsign | hdigit
    · exact .inl hsign
    · exact .inr (isDigit_of_mem_ofNat hdigit)
  · exact .inr (isDigit_of_mem_ofNat h)

end Decimal

namespace Operator

def code : Operator → Int
  | add => 0
  | sub => 1
  | mul => 2
  | div => 3
  | eq => 4
  | ne => 5
  | lt => 6
  | le => 7
  | gt => 8
  | ge => 9

theorem code_of_ofCode? {code : Int} {op : Operator} (h : ofCode? code = some op) :
    code = op.code := by
  unfold ofCode? at h
  split at h <;> cases h <;> rfl

theorem symbol_injective {op op' : Operator}
    (h : Text.ofString op.symbol = Text.ofString op'.symbol) : op = op' := by
  revert h
  cases op <;> cases op' <;> decide

/-- No symbol starts like a code that stands for no operator. -/
theorem symbol_ne_append (op : Operator) (t : Text) :
    Text.ofString op.symbol ≠ Text.ofString "Operator(" ++ t := by
  have hhead : (Text.ofString op.symbol).head? ≠ some 79 := by
    cases op <;> decide
  intro h
  rw [h] at hhead
  exact hhead rfl

theorem nameOfCode_of_some {code : Int} {op : Operator} (h : ofCode? code = some op) :
    nameOfCode code = Text.ofString op.symbol := by
  rw [nameOfCode, h]

theorem nameOfCode_of_none {code : Int} (h : ofCode? code = none) :
    nameOfCode code = Text.ofString "Operator(" ++ (Decimal.ofInt code ++ Text.ofString ")") := by
  rw [nameOfCode, h, ← List.append_assoc]

theorem nameOfCode_injective : Function.Injective nameOfCode := by
  intro a b h
  cases ha : ofCode? a with
  | some op =>
      cases hb : ofCode? b with
      | some op' =>
          rw [nameOfCode_of_some ha, nameOfCode_of_some hb] at h
          rw [code_of_ofCode? ha, code_of_ofCode? hb, symbol_injective h]
      | none =>
          rw [nameOfCode_of_some ha, nameOfCode_of_none hb] at h
          exact absurd h (symbol_ne_append op _)
  | none =>
      cases hb : ofCode? b with
      | some op' =>
          rw [nameOfCode_of_none ha, nameOfCode_of_some hb] at h
          exact absurd h.symm (symbol_ne_append op' _)
      | none =>
          rw [nameOfCode_of_none ha, nameOfCode_of_none hb] at h
          exact Decimal.ofInt_injective (List.append_cancel_right (List.append_cancel_left h))

theorem space_not_mem_symbol (op : Operator) : 32 ∉ Text.ofString op.symbol := by
  cases op <;> decide

theorem space_not_mem_nameOfCode (code : Int) : 32 ∉ nameOfCode code := by
  cases hcode : ofCode? code with
  | some op =>
      rw [nameOfCode_of_some hcode]
      exact space_not_mem_symbol op
  | none =>
      rw [nameOfCode_of_none hcode, List.mem_append, List.mem_append]
      rintro (hword | hnumber | hclose)
      · exact absurd hword (by decide)
      · rcases Decimal.byte_of_mem_ofInt hnumber with hsign | hdigit
        · cases hsign
        · cases hdigit
      · exact absurd hclose (by decide)

end Operator

namespace Tree

variable {ν ω : Type}

/-- How numbers and operators are written so that one can tell where they end: a
number in digits, an operator without spaces. -/
structure Legible (number : ν → Text) (operator : ω → Text) : Prop where
  digits : ∀ n, ∀ b ∈ number n, Decimal.isDigit b = true
  unspaced : ∀ op, 32 ∉ operator op
  number_injective : Function.Injective number
  operator_injective : Function.Injective operator

/-- What comes after a form that is part of another one. -/
def EndsForm (b : UInt8) : Prop :=
  b = 32 ∨ b = 41

theorem EndsForm.not_isDigit {b : UInt8} (h : EndsForm b) : ¬ Decimal.isDigit b = true := by
  rcases h with rfl | rfl <;> decide

theorem sexpr_binary_append (number : ν → Text) (operator : ω → Text) (loc : Location) (op : ω)
    (l r : Tree ν ω) (rest : Text) :
    sexpr number operator (.binary loc op l r) ++ rest =
      40 :: (operator op ++ 32 :: (sexpr number operator l ++ 32 ::
        (sexpr number operator r ++ 41 :: rest))) := by
  have hopen : Text.ofString "(" = [40] := rfl
  have hspace : Text.ofString " " = [32] := rfl
  have hclose : Text.ofString ")" = [41] := rfl
  simp only [sexpr, hopen, hspace, hclose, List.append_assoc, List.cons_append,
    List.nil_append]

theorem sexpr_unlocated (number : ν → Text) (operator : ω → Text) (t : Tree ν ω) :
    sexpr number operator t.unlocated = sexpr number operator t := by
  induction t with
  | number loc n => rfl
  | binary loc op l r ihl ihr => rw [unlocated, sexpr, sexpr, ihl, ihr]

namespace Legible

variable {number : ν → Text} {operator : ω → Text} {x y : UInt8} {rest rest' : Text}

/-- A number is not taken for an operation. -/
theorem number_ne_binary (h : Legible number operator) (n : ν) (hx : EndsForm x) :
    number n ++ x :: rest ≠ 40 :: rest' := by
  intro heq
  cases hn : number n with
  | nil =>
      rw [hn, List.nil_append] at heq
      obtain ⟨rfl, _⟩ := List.cons.inj heq
      rcases hx with hx | hx <;> cases hx
  | cons b t =>
      rw [hn, List.cons_append] at heq
      obtain ⟨rfl, _⟩ := List.cons.inj heq
      have hdigit := h.digits n 40 (hn ▸ List.mem_cons_self)
      cases hdigit

theorem sexpr_append_inj (h : Legible number operator) {s t : Tree ν ω} (hx : EndsForm x)
    (hy : EndsForm y)
    (heq : sexpr number operator s ++ x :: rest = sexpr number operator t ++ y :: rest') :
    s.unlocated = t.unlocated ∧ x = y ∧ rest = rest' := by
  induction s generalizing t x y rest rest' with
  | number loc n =>
      cases t with
      | number loc' n' =>
          obtain ⟨hnumber, hrest⟩ := cut_unique (p := fun b => ¬ Decimal.isDigit b = true)
            (fun b hb => not_not.mpr (h.digits n b hb)) hx.not_isDigit
            (fun b hb => not_not.mpr (h.digits n' b hb)) hy.not_isDigit heq
          rw [unlocated, unlocated, h.number_injective hnumber]
          exact ⟨rfl, hrest⟩
      | binary loc' op' l' r' =>
          rw [sexpr_binary_append] at heq
          exact absurd heq (h.number_ne_binary n hx)
  | binary loc op l r ihl ihr =>
      cases t with
      | number loc' n' =>
          rw [sexpr_binary_append] at heq
          exact absurd heq.symm (h.number_ne_binary n' hy)
      | binary loc' op' l' r' =>
          rw [sexpr_binary_append, sexpr_binary_append] at heq
          obtain ⟨hop, _, heq⟩ := cut_unique (p := fun b => b = 32)
            (fun b hb hspace => h.unspaced op (hspace ▸ hb)) rfl
            (fun b hb hspace => h.unspaced op' (hspace ▸ hb)) rfl (List.cons.inj heq).2
          obtain ⟨hleft, _, heq⟩ := ihl (.inl rfl) (.inl rfl) heq
          obtain ⟨hright, _, heq⟩ := ihr (.inr rfl) (.inr rfl) heq
          rw [unlocated, unlocated, h.operator_injective hop, hleft, hright]
          exact ⟨rfl, List.cons.inj heq⟩

theorem sexpr_eq_iff (h : Legible number operator) (s t : Tree ν ω) :
    sexpr number operator s = sexpr number operator t ↔ s.unlocated = t.unlocated := by
  constructor
  · intro heq
    have hspaced := congrArg (· ++ [32]) heq
    exact (h.sexpr_append_inj (.inl rfl) (.inl rfl) hspaced).1
  · intro hsame
    rw [← sexpr_unlocated, hsame, sexpr_unlocated]

end Legible

end Tree

theorem Expr.numeral_injective : Function.Injective numeral := by
  intro n n' h
  exact UInt64.toNat_inj.mp (Decimal.ofNat_injective h)

theorem Expr.legible : Tree.Legible numeral (fun op : Operator => Text.ofString op.symbol) where
  digits _ _ := Decimal.isDigit_of_mem_ofNat
  unspaced := Operator.space_not_mem_symbol
  number_injective := numeral_injective
  operator_injective _ _ := Operator.symbol_injective

theorem CodeTree.legible : Tree.Legible Expr.numeral Operator.nameOfCode where
  digits _ _ := Decimal.isDigit_of_mem_ofNat
  unspaced := Operator.space_not_mem_nameOfCode
  number_injective := Expr.numeral_injective
  operator_injective := Operator.nameOfCode_injective

/-- The parenthesised form identifies the tree: two trees have the same form if and
only if they are equal up to locations. This holds for trees over any operator codes,
with or without an operator to the code, and for expressions. -/
theorem sexpr_identifies_tree :
    (∀ s t : CodeTree, s.sexpr = t.sexpr ↔ s.unlocated = t.unlocated) ∧
      ∀ e e' : Expr, e.sexpr = e'.sexpr ↔ e.unlocated = e'.unlocated :=
  ⟨CodeTree.legible.sexpr_eq_iff, Expr.legible.sexpr_eq_iff⟩

end ArithAsm
