import Mathlib.Order.Monotone.Basic
import ArithAsm.Proofs.Parsing

/-!
A parser that is asked again and again, with trailing input allowed. Every call
goes on where the one before it has stopped. An expression uses up its own lexemes
and no other; an error uses up the lexeme that it is about. So the lexemes are
passed one after the other, and the end is reached whatever they are.
-/

namespace ArithAsm.Parser

/-- The parser of a list after a number of calls. -/
def afterCalls (ls : List Lexeme) : Nat → Parser
  | 0 => ofLexemes ls
  | n + 1 => ((afterCalls ls n).expression true).2

/-- The answer of the call that comes after `n` others. -/
def answer (ls : List Lexeme) (n : Nat) : Except ParseError Expr :=
  ((afterCalls ls n).expression true).1

/-- How many lexemes have been passed after a number of calls. -/
def cursor (ls : List Lexeme) (n : Nat) : Nat :=
  ls.length - (afterCalls ls n).rest.length

/-- The lexemes that the call after `n` others passes. -/
def passed (ls : List Lexeme) (n : Nat) : List Lexeme :=
  (ls.drop (cursor ls n)).take (cursor ls (n + 1) - cursor ls n)

theorem derives_unique {ls : List Lexeme} {e e' : Expr} (h : Derives .equality ls e)
    (h' : Derives .equality ls e') : e = e' := by
  obtain ⟨s, hshifts, hfinish⟩ := finish_of_derives h
  obtain ⟨s', hshifts', hfinish'⟩ := finish_of_derives h'
  obtain rfl := Option.some.inj (hshifts.symm.trans hshifts')
  exact Except.ok.inj (hfinish.symm.trans hfinish')

theorem derives_ne_nil {p : Phrase} {ls : List Lexeme} {e : Expr} (h : Derives p ls e) :
    ls ≠ [] := by
  obtain ⟨front, l, rfl, _⟩ := h.last_lexeme
  simp

/-- An error leaves what comes after the lexeme that it is about. -/
theorem run_error_rest {eof : Lexeme} {s : State} {ls rest : List Lexeme} {err : ParseError}
    (h : run eof s ls = (.error err, rest)) :
    err.loc = err.got.loc ∧
      ((∃ used, ls = used ++ err.got :: rest) ∨ (err.got = eof ∧ rest = [])) := by
  induction ls generalizing s with
  | nil =>
      obtain ⟨hanswer, hrest⟩ := Prod.mk.inj h
      obtain ⟨cause, _, rfl⟩ := Result.mapError_eq_error_iff.mp hanswer
      exact ⟨rfl, .inr ⟨rfl, hrest.symm⟩⟩
  | cons l ls ih =>
      rw [run] at h
      cases hshift : s.shift? l with
      | some s' =>
          simp only [hshift] at h
          obtain ⟨hloc, ⟨used, rfl⟩ | hend⟩ := ih h
          · exact ⟨hloc, .inl ⟨l :: used, rfl⟩⟩
          · exact ⟨hloc, .inr hend⟩
      | none =>
          cases hfinish : s.finish with
          | ok e => simp [hshift, hfinish] at h
          | error cause =>
              simp only [hshift, hfinish, Prod.mk.injEq, Except.error.injEq] at h
              obtain ⟨rfl, rfl⟩ := h
              exact ⟨rfl, .inl ⟨[], rfl⟩⟩

/-- The outcomes of a call: an expression, an error at a lexeme, or an error at the
end. -/
theorem call_cases (p : Parser) :
    (∃ used rest e, p.rest = used ++ rest ∧ Derives .equality used e ∧
      p.expression true = (.ok e, { p with rest })) ∨
    ∃ err rest, err.loc = err.got.loc ∧ p.expression true = (.error err, { p with rest }) ∧
      ((∃ used, p.rest = used ++ err.got :: rest) ∨
        (err.got = .eofAt p.endLoc ∧ rest = [])) := by
  cases hrun : run (.eofAt p.endLoc) .initial p.rest with
  | mk result rest =>
      cases result with
      | ok e =>
          obtain ⟨used, hused, hderives⟩ := run_derives spells_initial hrun
          rw [List.nil_append] at hderives
          refine .inl ⟨used, rest, e, hused, hderives, ?_⟩
          simp [expression, hrun]
      | error err =>
          obtain ⟨hloc, hrest⟩ := run_error_rest hrun
          refine .inr ⟨err, rest, hloc, ?_, hrest⟩
          simp [expression, hrun]

/-- With nothing left an operand is missing, and nothing changes. -/
theorem call_at_end {p : Parser} (h : p.rest = []) :
    p.expression true = (.error ⟨.expectedPrimary, p.endLoc, .eofAt p.endLoc⟩, p) := by
  obtain ⟨rest, endLoc⟩ := p
  obtain rfl : rest = [] := h
  rfl

/-- The parser stands in front of the lexeme with the index `i`, or at the end. -/
def At (ls : List Lexeme) (i : Nat) (p : Parser) : Prop :=
  i ≤ ls.length ∧ p = ⟨ls.drop i, (ofLexemes ls).endLoc⟩

/-- What an answer says about the lexemes from index `i` up to `j`: they derive the
expression, or the last of them is the one that is reported. An end marker is
reported when the list has ended. -/
def Accounts (ls : List Lexeme) (i j : Nat) : Except ParseError Expr → Prop
  | .ok e => Derives .equality ((ls.drop i).take (j - i)) e
  | .error err => err.loc = err.got.loc ∧
      ((∃ k, i ≤ k ∧ ls[k]? = some err.got ∧ j = k + 1) ∨
        (err.got = .eofAt (ofLexemes ls).endLoc ∧ j = ls.length))

section Calls

variable {ls : List Lexeme} {i : Nat} {p : Parser}

/-- Passing some of the lexemes that are left. -/
theorem At.past (h : At ls i p) {used rest : List Lexeme} (hrest : p.rest = used ++ rest) :
    At ls (i + used.length) { p with rest } ∧ (ls.drop i).take used.length = used := by
  obtain ⟨hle, rfl⟩ := h
  have hrest : ls.drop i = used ++ rest := hrest
  have hlength := congrArg List.length hrest
  rw [List.length_drop, List.length_append] at hlength
  refine ⟨⟨by omega, ?_⟩, ?_⟩
  · rw [← List.drop_drop, hrest, List.drop_left]
  · rw [hrest, List.take_left]

/-- One call. It does not go back, it passes a lexeme if there is one, and it
accounts for what it has passed. -/
theorem At.call (h : At ls i p) :
    ∃ j, At ls j (p.expression true).2 ∧ i ≤ j ∧ (i < ls.length → i < j) ∧
      Accounts ls i j (p.expression true).1 := by
  rcases call_cases p with ⟨used, rest, e, hrest, hderives, hcall⟩ |
    ⟨err, rest, hloc, hcall, ⟨used, hrest⟩ | ⟨hgot, rfl⟩⟩
  · obtain ⟨hat, htake⟩ := h.past hrest
    have hpos : 0 < used.length := List.length_pos_of_ne_nil (derives_ne_nil hderives)
    rw [hcall]
    refine ⟨i + used.length, hat, by omega, fun _ => by omega, ?_⟩
    rwa [Accounts, Nat.add_sub_cancel_left, htake]
  · have hsplit : p.rest = (used ++ [err.got]) ++ rest := by
      rw [hrest, List.append_assoc, List.singleton_append]
    obtain ⟨hat, _⟩ := h.past hsplit
    rw [List.length_append, List.length_singleton, ← Nat.add_assoc] at hat
    have hindex : ls[i + used.length]? = some err.got := by
      have hdrop : ls.drop i = used ++ err.got :: rest := by
        rw [← hrest, h.2]
      rw [← List.getElem?_drop, hdrop, List.getElem?_append_right (Nat.le_refl _), Nat.sub_self]
      rfl
    rw [hcall]
    exact ⟨i + used.length + 1, hat, by omega, fun _ => by omega, hloc,
      .inl ⟨i + used.length, by omega, hindex, rfl⟩⟩
  · obtain ⟨hle, rfl⟩ := h
    rw [hcall]
    refine ⟨ls.length, ⟨Nat.le_refl _, ?_⟩, hle, id, hloc, .inr ⟨hgot, rfl⟩⟩
    rw [List.drop_length]

end Calls

variable {ls : List Lexeme}

theorem exists_at (ls : List Lexeme) (n : Nat) : ∃ i, At ls i (afterCalls ls n) := by
  induction n with
  | zero => exact ⟨0, Nat.zero_le _, rfl⟩
  | succ n ih =>
      obtain ⟨i, hi⟩ := ih
      obtain ⟨j, hj, _⟩ := hi.call
      exact ⟨j, hj⟩

theorem At.cursor_eq {i n : Nat} (h : At ls i (afterCalls ls n)) : cursor ls n = i := by
  obtain ⟨hle, hparser⟩ := h
  rw [cursor, hparser, List.length_drop]
  omega

/-- What every call keeps: the parser stands at its cursor. -/
theorem at_afterCalls (ls : List Lexeme) (n : Nat) : At ls (cursor ls n) (afterCalls ls n) := by
  obtain ⟨i, hi⟩ := exists_at ls n
  rwa [hi.cursor_eq]

theorem call_accounts (ls : List Lexeme) (n : Nat) :
    cursor ls n ≤ cursor ls (n + 1) ∧
      (cursor ls n < ls.length → cursor ls n < cursor ls (n + 1)) ∧
      Accounts ls (cursor ls n) (cursor ls (n + 1)) (answer ls n) := by
  obtain ⟨j, hat, hle, hlt, haccounts⟩ := (at_afterCalls ls n).call
  have hj : cursor ls (n + 1) = j := At.cursor_eq hat
  rw [hj]
  exact ⟨hle, hlt, haccounts⟩

theorem cursor_monotone (ls : List Lexeme) : Monotone (cursor ls) :=
  monotone_nat_of_le_succ fun n => (call_accounts ls n).1

/-- At the end there is nothing left to pass. -/
theorem cursor_of_le {n k : Nat} (h : cursor ls n = ls.length) (hk : n ≤ k) :
    cursor ls k = ls.length := by
  have hle : cursor ls n ≤ cursor ls k := cursor_monotone ls hk
  have hbound : cursor ls k ≤ ls.length := (at_afterCalls ls k).1
  omega

theorem answer_at_end {n : Nat} (h : cursor ls n = ls.length) :
    answer ls n = .error ⟨.expectedPrimary, (ofLexemes ls).endLoc,
      .eofAt (ofLexemes ls).endLoc⟩ := by
  obtain ⟨_, hparser⟩ := at_afterCalls ls n
  have hrest : (afterCalls ls n).rest = [] := by
    rw [hparser, h, List.drop_length]
  rw [answer, call_at_end hrest, hparser]

/-- Repeated calls partition the lexemes. The cursor never goes back and stays within
the list, and before the end every call moves it. The lexemes that a successful call
passes have no end marker among them and derive the expression that it returns, and
no other. A failing call stops right after the lexeme that it reports, or at the end
when it reports an end marker that is not in the list. At the end every call fails
for want of an operand, at the end of the last lexeme, and the cursor stays. -/
theorem calls_partition (ls : List Lexeme) :
    (Monotone (cursor ls) ∧ ∀ n, cursor ls n ≤ ls.length ∧
      (afterCalls ls n).rest = ls.drop (cursor ls n) ∧
      (cursor ls n < ls.length → cursor ls n < cursor ls (n + 1))) ∧
    (∀ n e, answer ls n = .ok e →
      (∀ l ∈ passed ls n, l.kind ≠ .eof) ∧
        ∀ e', Derives .equality (passed ls n) e' ↔ e' = e) ∧
    (∀ n err, answer ls n = .error err → err.loc = err.got.loc ∧
      ((∃ k, cursor ls n ≤ k ∧ ls[k]? = some err.got ∧ cursor ls (n + 1) = k + 1) ∨
        (err.got = .eofAt (ofLexemes ls).endLoc ∧ cursor ls (n + 1) = ls.length))) ∧
    ∀ n, cursor ls n = ls.length → ∀ k, n ≤ k →
      cursor ls k = ls.length ∧
        answer ls k = .error ⟨.expectedPrimary, (ofLexemes ls).endLoc,
          .eofAt (ofLexemes ls).endLoc⟩ := by
  refine ⟨⟨cursor_monotone ls, ?_⟩, ?_, ?_, ?_⟩
  · intro n
    obtain ⟨hle, hparser⟩ := at_afterCalls ls n
    refine ⟨hle, ?_, (call_accounts ls n).2.1⟩
    rw [hparser]
  · intro n e hanswer
    obtain ⟨_, _, haccounts⟩ := call_accounts ls n
    rw [hanswer] at haccounts
    have hderives : Derives .equality (passed ls n) e := haccounts
    refine ⟨hderives.kind_ne_eof, fun e' => ⟨fun h => derives_unique h hderives, ?_⟩⟩
    rintro rfl
    exact hderives
  · intro n err hanswer
    obtain ⟨_, _, haccounts⟩ := call_accounts ls n
    rw [hanswer] at haccounts
    exact haccounts
  · intro n hend k hk
    have hlast := cursor_of_le hend hk
    exact ⟨hlast, answer_at_end hlast⟩

/-- The lexemes of `1 ) 2 - ( 3`: a number, a parenthesis that closes nothing, and a
difference whose parenthesis is not closed. -/
def brokenDifference : List Lexeme := [
  ⟨.number, "1", 1, ⟨1, 1, 0⟩⟩, ⟨.rightParen, ")", 0, ⟨1, 3, 2⟩⟩,
  ⟨.number, "2", 2, ⟨1, 5, 4⟩⟩, ⟨.minus, "-", 0, ⟨1, 7, 6⟩⟩,
  ⟨.leftParen, "(", 0, ⟨1, 9, 8⟩⟩, ⟨.number, "3", 3, ⟨1, 11, 10⟩⟩]

example : (List.range 5).map (cursor brokenDifference) = [0, 1, 2, 6, 6] := rfl

end ArithAsm.Parser
