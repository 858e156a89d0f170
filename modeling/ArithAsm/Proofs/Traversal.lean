import ArithAsm.Proofs.Lexing
import ArithAsm.Proofs.Parsing

/-!
A tree and the lexemes it was read from. From left to right its nodes are the
numbers and operators among the lexemes, each once and with its location; only
the zero that a minus sign subtracts from is not among them. Parentheses and plus
signs in front of operands leave no node.
-/

namespace ArithAsm

namespace Expr

/-- A node of a tree, without what is below it. -/
inductive Node where
  | number (loc : Location) (value : UInt64)
  | operator (loc : Location) (op : Operator)
  deriving DecidableEq, Repr

def Node.loc : Node → Location
  | number loc _ => loc
  | operator loc _ => loc

/-- The nodes from left to right: an operator stands between its operands. -/
def inorder : Expr → List Node
  | .number loc n => [.number loc n]
  | .binary loc op l r => inorder l ++ .operator loc op :: inorder r

end Expr

open ArithAsm.Expr (Node)

/-- The node that a number or an operator becomes. -/
def Lexeme.node? (l : Lexeme) : Option Node :=
  match l.kind with
  | .number => some (.number l.loc l.value)
  | k => k.operator?.map (.operator l.loc)

theorem Lexeme.node?_of_operator {l : Lexeme} {op : Operator}
    (hop : l.kind.operator? = some op) : l.node? = some (.operator l.loc op) := by
  unfold node?
  split
  · rename_i hl
    rw [hl] at hop
    cases hop
  · rw [hop]
    rfl

theorem Lexeme.loc_of_node? {l : Lexeme} {n : Node} (h : l.node? = some n) : n.loc = l.loc := by
  unfold node? at h
  split at h
  · rw [← Option.some.inj h]
    rfl
  · obtain ⟨op, _, rfl⟩ := Option.map_eq_some_iff.mp h
    rfl

/-- A lexeme in its place: whether an operand is still to come there. -/
structure PlacedLexeme where
  lexeme : Lexeme
  beforeOperand : Bool
  deriving DecidableEq, Repr

/-- The lexemes in their places. An operand comes first, and again after each
operator, sign or opening parenthesis. -/
def placed (beforeOperand : Bool) : List Lexeme → List PlacedLexeme
  | [] => []
  | l :: ls => ⟨l, beforeOperand⟩ :: placed l.kind.opensOperand ls

namespace PlacedLexeme

/-- A parenthesis, or a plus sign in front of an operand. -/
def isSilent (p : PlacedLexeme) : Bool :=
  p.lexeme.kind = .leftParen || p.lexeme.kind = .rightParen ||
    (p.lexeme.kind = .plus && p.beforeOperand)

/-- A minus sign in front of an operand. -/
def isNegation (p : PlacedLexeme) : Bool :=
  p.lexeme.kind = .minus && p.beforeOperand

end PlacedLexeme

/-- The lexemes without parentheses and plus signs in front of operands. -/
def significant (ls : List Lexeme) : List Lexeme :=
  ((placed true ls).filter (!·.isSilent)).map (·.lexeme)

/-- A step of a traversal: the node of a lexeme, or the zero that the minus sign
at a location subtracts from. -/
inductive Visit where
  | node (n : Node)
  | zero (loc : Location)
  deriving DecidableEq, Repr

namespace Visit

def toNode : Visit → Node
  | node n => n
  | zero loc => .number loc 0

/-- The node, unless it is a zero that no lexeme stands for. -/
def kept? : Visit → Option Node
  | node n => some n
  | zero _ => none

end Visit

/-- What a lexeme in its place becomes. -/
def PlacedLexeme.visits (p : PlacedLexeme) : List Visit :=
  if p.isSilent then []
  else if p.isNegation then [.zero p.lexeme.loc, .node (.operator p.lexeme.loc .sub)]
  else (p.lexeme.node?.map Visit.node).toList

/-- What lexemes become, from left to right. -/
def visits (ls : List Lexeme) : List Visit :=
  (placed true ls).flatMap (·.visits)

namespace PlacedLexeme

variable {l : Lexeme} (beforeOperand : Bool)

theorem visits_number (hl : l.kind = .number) :
    visits ⟨l, beforeOperand⟩ = [.node (.number l.loc l.value)] := by
  simp [visits, isSilent, isNegation, Lexeme.node?, hl]

theorem visits_leftParen (hl : l.kind = .leftParen) : visits ⟨l, beforeOperand⟩ = [] := by
  simp [visits, isSilent, hl]

theorem visits_rightParen (hl : l.kind = .rightParen) : visits ⟨l, beforeOperand⟩ = [] := by
  simp [visits, isSilent, hl]

theorem visits_plus (hl : l.kind = .plus) : visits ⟨l, true⟩ = [] := by
  simp [visits, isSilent, hl]

theorem visits_minus (hl : l.kind = .minus) :
    visits ⟨l, true⟩ = [.zero l.loc, .node (.operator l.loc .sub)] := by
  simp [visits, isSilent, isNegation, hl]

theorem visits_operator {op : Operator} (hop : l.kind.operator? = some op) :
    visits ⟨l, false⟩ = [.node (.operator l.loc op)] := by
  have hsilent : isSilent ⟨l, false⟩ = false := by
    cases hl : l.kind <;> rw [hl] at hop <;> cases hop <;> simp [isSilent, hl]
  simp [visits, hsilent, isNegation, Lexeme.node?_of_operator hop]

/-- A lexeme becomes nothing, one node, or a zero and a subtraction from it. -/
theorem visits_cases (p : PlacedLexeme) :
    p.visits = [] ∨ (∃ n, p.visits = [.node n]) ∨
      ∃ loc, p.visits = [.zero loc, .node (.operator loc .sub)] := by
  unfold visits
  split
  · exact .inl rfl
  · split
    · exact .inr (.inr ⟨_, rfl⟩)
    · cases p.lexeme.node? with
      | none => exact .inl rfl
      | some n => exact .inr (.inl ⟨n, rfl⟩)

/-- A lexeme that is not silent is kept as its node. -/
theorem filterMap_visits {p : PlacedLexeme} {n : Node} (hsilent : p.isSilent = false)
    (hn : p.lexeme.node? = some n) : p.visits.filterMap Visit.kept? = [n] := by
  by_cases hnegation : p.isNegation = true
  · have hkind : p.lexeme.kind = .minus := by
      simp only [isNegation, Bool.and_eq_true, decide_eq_true_eq] at hnegation
      exact hnegation.1
    obtain rfl : Node.operator p.lexeme.loc .sub = n := by
      simpa [Lexeme.node?, hkind, LexemeKind.operator?] using hn
    simp only [visits, hsilent, hnegation, Bool.false_eq_true, if_false, if_true]
    rfl
  · simp [visits, hsilent, hnegation, hn, Visit.kept?]

end PlacedLexeme

theorem placed_append (beforeOperand : Bool) (front : List Lexeme) (l : Lexeme)
    (rest : List Lexeme) :
    placed beforeOperand (front ++ [l] ++ rest) =
      placed beforeOperand (front ++ [l]) ++ placed l.kind.opensOperand rest := by
  induction front generalizing beforeOperand with
  | nil => rfl
  | cons l' front ih => exact congrArg (_ :: ·) (ih l'.kind.opensOperand)

theorem visits_cons {l : Lexeme} (hl : l.kind.opensOperand = true) (ls : List Lexeme) :
    visits (l :: ls) = PlacedLexeme.visits ⟨l, true⟩ ++ visits ls := by
  rw [visits, placed, hl]
  rfl

theorem map_lexeme_placed (beforeOperand : Bool) (ls : List Lexeme) :
    (placed beforeOperand ls).map (·.lexeme) = ls := by
  induction ls generalizing beforeOperand with
  | nil => rfl
  | cons l ls ih => exact congrArg (l :: ·) (ih l.kind.opensOperand)

namespace Derives

variable {p : Phrase} {ls : List Lexeme} {e : Expr}

/-- A phrase is an operand, so none comes next in what follows it. -/
theorem placed_append (h : Derives p ls e) (rest : List Lexeme) :
    placed true (ls ++ rest) = placed true ls ++ placed false rest := by
  obtain ⟨front, l, rfl, hl⟩ := h.last_lexeme
  rw [ArithAsm.placed_append, hl]

theorem visits_paren (h : Derives p ls e) {l r : Lexeme} (hl : l.kind = .leftParen)
    (hr : r.kind = .rightParen) : visits (l :: ls ++ [r]) = visits ls := by
  have hclosing : visits (ls ++ [r]) = visits ls := by
    rw [visits, h.placed_append]
    simp [placed, visits, PlacedLexeme.visits_rightParen false hr]
  rw [List.cons_append, visits_cons (by rw [hl]; rfl), PlacedLexeme.visits_leftParen true hl,
    List.nil_append, hclosing]

theorem visits_chain (h : Derives p ls e) {l : Lexeme} {op : Operator}
    (hop : l.kind.operator? = some op) (rs : List Lexeme) :
    visits (ls ++ l :: rs) = visits ls ++ .node (.operator l.loc op) :: visits rs := by
  have hopens : l.kind.opensOperand = true := by
    rw [LexemeKind.opensOperand, hop]
    rfl
  rw [visits, h.placed_append, placed, hopens]
  simp [visits, PlacedLexeme.visits_operator hop]

/-- The traversal of a tree gives what its lexemes become. Induction over the
derivation: to the visits of its parts a phrase adds those of one lexeme, or
nothing for a pair of parentheses. -/
theorem map_toNode_visits (h : Derives p ls e) :
    (visits ls).map Visit.toNode = e.inorder := by
  induction h with
  | number hl =>
      rw [visits, placed, placed, List.flatMap_singleton, PlacedLexeme.visits_number true hl]
      rfl
  | paren hl he hr ih => rw [he.visits_paren hl hr, ih]
  | plus hl _ ih =>
      rw [visits_cons (by rw [hl]; rfl), PlacedLexeme.visits_plus hl]
      exact ih
  | minus hl _ ih =>
      rw [visits_cons (by rw [hl]; rfl), PlacedLexeme.visits_minus hl, List.map_append, ih]
      rfl
  | single _ _ ih => exact ih
  | chain _ hleft hop _ ihleft ihright =>
      obtain ⟨hkind, _⟩ := Phrase.operator?_eq_some_iff.mp hop
      rw [hleft.visits_chain hkind, List.map_append, List.map_cons, ihleft, ihright]
      rfl

/-- What is not silent has a node of its own. -/
theorem exists_node (h : Derives p ls e) (q : PlacedLexeme) (hq : q.lexeme ∈ ls)
    (hsilent : q.isSilent = false) : ∃ n, q.lexeme.node? = some n := by
  rcases h.kind_cases q.lexeme hq with hl | hl | hl | ⟨op, hop⟩
  · exact ⟨.number q.lexeme.loc q.lexeme.value, by simp [Lexeme.node?, hl]⟩
  · simp [PlacedLexeme.isSilent, hl] at hsilent
  · simp [PlacedLexeme.isSilent, hl] at hsilent
  · exact ⟨_, Lexeme.node?_of_operator hop⟩

end Derives

/-- Without the zeros, there is one node for each lexeme that is not silent. -/
theorem forall₂_kept {ps : List PlacedLexeme}
    (h : ∀ p ∈ ps, p.isSilent = false → ∃ n, p.lexeme.node? = some n) :
    List.Forall₂ (fun n l => l.node? = some n)
      ((ps.flatMap (·.visits)).filterMap Visit.kept?)
      ((ps.filter (!·.isSilent)).map (·.lexeme)) := by
  induction ps with
  | nil => exact .nil
  | cons p ps ih =>
      have hrest := ih fun q hq => h q (List.mem_cons_of_mem p hq)
      rw [List.flatMap_cons, List.filterMap_append]
      by_cases hsilent : p.isSilent = true
      · simpa [PlacedLexeme.visits, hsilent] using hrest
      · rw [Bool.not_eq_true] at hsilent
        obtain ⟨n, hn⟩ := h p List.mem_cons_self hsilent
        rw [PlacedLexeme.filterMap_visits hsilent hn, List.filter_cons_of_pos (by simp [hsilent])]
        exact .cons hn hrest

/-- A zero stands right before the subtraction from it, at the same location. -/
theorem visits_after_zero {ls : List Lexeme} {front rest : List Visit} {loc : Location}
    (h : visits ls = front ++ .zero loc :: rest) :
    ∃ rest', rest = .node (.operator loc .sub) :: rest' := by
  rw [visits] at h
  generalize placed true ls = ps at h
  induction ps generalizing front with
  | nil => simp at h
  | cons p ps ih =>
      rw [List.flatMap_cons] at h
      rcases p.visits_cases with hp | ⟨n, hp⟩ | ⟨loc', hp⟩
      · rw [hp] at h
        exact ih h
      · rw [hp] at h
        cases front with
        | nil => simp at h
        | cons x front => exact ih (List.cons.inj h).2
      · rw [hp] at h
        match front with
        | [] =>
            obtain ⟨hzero, hrest⟩ := List.cons.inj h
            obtain rfl := Visit.zero.inj hzero
            exact ⟨_, hrest.symm⟩
        | [x] => simp at h
        | x :: y :: front => exact ih (List.cons.inj (List.cons.inj h).2).2

theorem significant_sublist (ls : List Lexeme) : (significant ls).Sublist ls := by
  have hsub : (significant ls).Sublist ((placed true ls).map (·.lexeme)) :=
    List.filter_sublist.map _
  rwa [map_lexeme_placed] at hsub

/-- The nodes of a traversal, without the zeros that minus signs subtract from. -/
def keptNodes (ls : List Lexeme) : List Node :=
  (visits ls).filterMap Visit.kept?

theorem Derives.forall₂_keptNodes {p : Phrase} {ls : List Lexeme} {e : Expr}
    (h : Derives p ls e) :
    List.Forall₂ (fun n l => l.node? = some n) (keptNodes ls) (significant ls) := by
  apply forall₂_kept
  intro q hq hsilent
  have hmem : q.lexeme ∈ (placed true ls).map (·.lexeme) := List.mem_map_of_mem hq
  rw [map_lexeme_placed] at hmem
  exact h.exists_node q hmem hsilent

theorem pairwise_offset_of_tokenize {checked : Bool} {source : Text} {ls : List Lexeme}
    (h : tokenize checked source = .ok ls) :
    ls.Pairwise fun a b => a.loc.offset < b.loc.offset := by
  apply ((Lexer.at_ofText source).covers h).pairwise.imp
  rintro a b ⟨hstart, _⟩
  simp only [Lexeme.start] at hstart
  omega

/-- The nodes of lexemes stand where the lexemes do. -/
theorem Derives.pairwise_keptNodes {p : Phrase} {ls : List Lexeme} {e : Expr}
    (h : Derives p ls e) (hls : ls.Pairwise fun a b => a.loc.offset < b.loc.offset) :
    (keptNodes ls).Pairwise fun a b => a.loc.offset < b.loc.offset := by
  have hlocs : List.Forall₂ (· = ·) ((keptNodes ls).map (·.loc))
      ((significant ls).map (·.loc)) := by
    rw [List.forall₂_map_left_iff, List.forall₂_map_right_iff]
    exact h.forall₂_keptNodes.imp fun _ _ => Lexeme.loc_of_node?
  rw [List.forall₂_eq_eq_eq] at hlocs
  have hordered : ((significant ls).map (·.loc)).Pairwise fun a b => a.offset < b.offset :=
    List.pairwise_map.mpr (hls.sublist (significant_sublist ls))
  rwa [← hlocs, List.pairwise_map] at hordered

/-- Parsing loses, repeats and reorders nothing. The traversal of the tree, from
left to right, gives what the lexemes before the end marker become in their
places. Without the zeros that minus signs subtract from, these are the numbers
and operators themselves, in their order and with their values and locations:
all lexemes but parentheses and plus signs in front of operands. Each zero stands
right before its minus sign and at the same location. In the order of a source the
offsets increase. -/
theorem inorder_of_parse {ls : List Lexeme} {e : Expr} (h : parse false ls = .ok e) :
    e.inorder = (visits (beforeEof ls)).map Visit.toNode ∧
    List.Forall₂ (fun n l => l.node? = some n) (keptNodes (beforeEof ls))
      (significant (beforeEof ls)) ∧
    (∀ front loc rest, visits (beforeEof ls) = front ++ .zero loc :: rest →
      ∃ rest', rest = .node (.operator loc .sub) :: rest') ∧
    ∀ checked source, tokenize checked source = .ok ls →
      (keptNodes (beforeEof ls)).Pairwise fun a b => a.loc.offset < b.loc.offset := by
  have hderives := derives_of_parse h
  refine ⟨hderives.map_toNode_visits.symm, hderives.forall₂_keptNodes,
    fun front loc rest => visits_after_zero, ?_⟩
  intro checked source htokenize
  apply hderives.pairwise_keptNodes
  exact (pairwise_offset_of_tokenize htokenize).sublist (List.takeWhile_sublist _)

/-- One of the minus signs has a zero of its own, the other one a zero that is
written. -/
def signedZero : Text := "+(0 - -7)"

def signedZeroLexemes : List Lexeme := [
  ⟨.plus, "+", 0, ⟨1, 1, 0⟩⟩, ⟨.leftParen, "(", 0, ⟨1, 2, 1⟩⟩,
  ⟨.number, "0", 0, ⟨1, 3, 2⟩⟩, ⟨.minus, "-", 0, ⟨1, 5, 4⟩⟩, ⟨.minus, "-", 0, ⟨1, 7, 6⟩⟩,
  ⟨.number, "7", 7, ⟨1, 8, 7⟩⟩, ⟨.rightParen, ")", 0, ⟨1, 9, 8⟩⟩, .eofAt ⟨1, 10, 9⟩]

theorem inorder_signedZero :
    tokenize true signedZero = .ok signedZeroLexemes ∧
      ∃ e, parse false signedZeroLexemes = .ok e ∧
        e.inorder = [.number ⟨1, 3, 2⟩ 0, .operator ⟨1, 5, 4⟩ .sub, .number ⟨1, 7, 6⟩ 0,
          .operator ⟨1, 7, 6⟩ .sub, .number ⟨1, 8, 7⟩ 7] ∧
        keptNodes (beforeEof signedZeroLexemes) = [.number ⟨1, 3, 2⟩ 0,
          .operator ⟨1, 5, 4⟩ .sub, .operator ⟨1, 7, 6⟩ .sub, .number ⟨1, 8, 7⟩ 7] ∧
        (keptNodes (beforeEof signedZeroLexemes)).Pairwise
          fun a b => a.loc.offset < b.loc.offset := by
  have hlexemes : tokenize true signedZero = .ok signedZeroLexemes := by
    with_unfolding_all rfl
  have hparse : ∃ e, parse false signedZeroLexemes = .ok e := ⟨_, rfl⟩
  obtain ⟨e, he⟩ := hparse
  obtain ⟨hinorder, _, _, hordered⟩ := inorder_of_parse he
  exact ⟨hlexemes, e, he, hinorder, rfl, hordered _ _ hlexemes⟩

end ArithAsm
