import Mathlib.Data.Nat.Find
import Mathlib.Order.Monotone.Basic
import ArithAsm.Proofs.Lexing

/-!
A lexer that is asked again and again, whatever it answers. After an error it
goes on, after the end it stays where it is. Its position is that of the text it
has passed at every moment, and since each call passes bytes of its own, the end
comes after no more calls than there are bytes.
-/

namespace ArithAsm.Lexer

/-- The byte offset at which the lexer stands. -/
def offset (l : Lexer) : Nat :=
  l.loc.offset.toNat

/-- The lexer of a source after a number of calls. -/
def afterCalls (checked : Bool) (source : Text) : Nat → Lexer
  | 0 => ofText source
  | n + 1 => ((afterCalls checked source n).next checked).2

/-- The answer of the call that comes after `n` others. -/
def answer (checked : Bool) (source : Text) (n : Nat) : Except LexError Lexeme :=
  ((afterCalls checked source n).next checked).1

/-- The end marker, rather than another lexeme or an error. -/
def isEnd : Except LexError Lexeme → Bool
  | .ok l => l.kind = .eof
  | .error _ => false

/-- Where the lexeme or the error starts. -/
def answerLoc : Except LexError Lexeme → Location
  | .ok l => l.loc
  | .error e => e.loc

/-- The call that comes after `n` others passes the byte `b`. -/
def Consumes (checked : Bool) (source : Text) (n b : Nat) : Prop :=
  (afterCalls checked source n).offset ≤ b ∧ b < (afterCalls checked source (n + 1)).offset

section Answers

variable {source : Text} {n m : Nat} {a : Except LexError Lexeme}

theorem Accounts.loc_eq (h : Accounts source n m a) : answerLoc a = .after (source.take n) := by
  cases a with
  | ok l => exact h.1
  | error e => exact h

theorem Accounts.isEnd_eq_false (h : Accounts source n m a) : isEnd a = false := by
  cases a with
  | ok l => exact decide_eq_false h.2.2.ne_eof
  | error e => rfl

end Answers

/-- The place where a lexer stands is its own offset. -/
theorem At.offset_eq {source : Text} {n : Nat} {l : Lexer} (h : At source n l) :
    l.offset = n := by
  obtain ⟨hle, hloc⟩ := h.loc_eq
  simp [offset, hloc, Location.after, hle]

variable {checked : Bool} {source : Text}

/-- What every call keeps: the lexer stands at a byte of the source. -/
theorem at_afterCalls (checked : Bool) (source : Text) (n : Nat) :
    At source (afterCalls checked source n).offset (afterCalls checked source n) := by
  have hat : ∃ k, At source k (afterCalls checked source n) := by
    induction n with
    | zero => exact ⟨0, at_ofText source⟩
    | succ n ih =>
        obtain ⟨k, hk⟩ := ih
        obtain ⟨_, k', _, _, hk', _⟩ := hk.next checked
        exact ⟨k', hk'⟩
  obtain ⟨k, hk⟩ := hat
  rw [hk.offset_eq]
  exact hk

/-- Two outcomes of a call. Either only blanks were left and it answers the end,
or it starts at the first rune that is not blank and passes that rune. -/
theorem call_cases (checked : Bool) (source : Text) (n : Nat) :
    (answer checked source n = .ok (.eofAt (.after source)) ∧
      (afterCalls checked source (n + 1)).offset = source.length) ∨
    (isEnd (answer checked source n) = false ∧
      ∃ start r rest, Consumes checked source n start ∧
        answerLoc (answer checked source n) = .after (source.take start) ∧
        (source.slice (afterCalls checked source n).offset start).IsBlank ∧
        source.runes = Text.runes (source.take start) ++ r :: rest ∧
        isBlank r.char = false) := by
  obtain ⟨start, hle, hblank, hend | hlexeme⟩ := (at_afterCalls checked source n).call checked
  · obtain ⟨hstart, hat, hanswer⟩ := hend
    exact .inl ⟨hanswer, hat.offset_eq.trans hstart⟩
  · obtain ⟨r, rest, k, hrunes, hr, hlt, hat, haccounts⟩ := hlexeme
    have hk : (afterCalls checked source (n + 1)).offset = k := hat.offset_eq
    have hconsumes : Consumes checked source n start := ⟨hle, by rw [hk]; exact hlt⟩
    exact .inr ⟨haccounts.isEnd_eq_false, start, r, rest, hconsumes, haccounts.loc_eq, hblank,
      hrunes, hr⟩

theorem offset_le_length (n : Nat) : (afterCalls checked source n).offset ≤ source.length :=
  (at_afterCalls checked source n).loc_eq.1

theorem offset_le_next (n : Nat) :
    (afterCalls checked source n).offset ≤ (afterCalls checked source (n + 1)).offset := by
  rcases call_cases checked source n with ⟨_, hlast⟩ | ⟨_, start, _, _, hconsumes, _⟩
  · rw [hlast]
    exact offset_le_length n
  · exact Nat.le_trans hconsumes.1 (Nat.le_of_lt hconsumes.2)

theorem offset_monotone : Monotone fun n => (afterCalls checked source n).offset :=
  monotone_nat_of_le_succ offset_le_next

theorem Consumes.unique {i j b : Nat} (hi : Consumes checked source i b)
    (hj : Consumes checked source j b) : i = j := by
  -- if one call came before the other, it would have stopped before the other began
  have hlt : ∀ {i j : Nat}, Consumes checked source i b → Consumes checked source j b →
      ¬ i < j := by
    intro i j hi hj hij
    have hle : (afterCalls checked source (i + 1)).offset ≤ (afterCalls checked source j).offset :=
      offset_monotone hij
    have hb : b < (afterCalls checked source (i + 1)).offset := hi.2
    have hb' : (afterCalls checked source j).offset ≤ b := hj.1
    omega
  exact Nat.le_antisymm (Nat.le_of_not_lt (hlt hj hi)) (Nat.le_of_not_lt (hlt hi hj))

theorem isEnd_iff_answer_eq {n : Nat} :
    isEnd (answer checked source n) = true ↔
      answer checked source n = .ok (.eofAt (.after source)) := by
  constructor
  · intro hend
    rcases call_cases checked source n with ⟨hanswer, _⟩ | ⟨hother, _⟩
    · exact hanswer
    · rw [hother] at hend
      cases hend
  · intro hanswer
    rw [hanswer]
    rfl

/-- After the end there is nothing left to pass. -/
theorem isEnd_succ {n : Nat} (h : isEnd (answer checked source n) = true) :
    isEnd (answer checked source (n + 1)) = true := by
  rcases call_cases checked source n with ⟨_, hlast⟩ | ⟨hother, _⟩
  · rcases call_cases checked source (n + 1) with ⟨hanswer, _⟩ | ⟨_, start, _, _, hconsumes, _⟩
    · exact isEnd_iff_answer_eq.mpr hanswer
    · have hstart : source.length ≤ start := hlast ▸ hconsumes.1
      have hbound : (afterCalls checked source (n + 2)).offset ≤ source.length :=
        offset_le_length (n + 2)
      have hpassed : start < (afterCalls checked source (n + 2)).offset := hconsumes.2
      omega
  · rw [hother] at h
    cases h

theorem isEnd_of_le {i j : Nat} (hij : i ≤ j) (h : isEnd (answer checked source i) = true) :
    isEnd (answer checked source j) = true :=
  Nat.le_induction h (fun _ _ => isEnd_succ) j hij

/-- As long as the end has not been answered, each call has passed a byte. -/
theorem le_offset_of_not_end {n : Nat}
    (h : ∀ i < n, isEnd (answer checked source i) = false) :
    n ≤ (afterCalls checked source n).offset := by
  induction n with
  | zero => exact Nat.zero_le _
  | succ n ih =>
      have hn : n ≤ (afterCalls checked source n).offset :=
        ih fun i hi => h i (Nat.lt_succ_of_lt hi)
      rcases call_cases checked source n with ⟨hanswer, _⟩ | ⟨_, start, _, _, hconsumes, _⟩
      · have hend := isEnd_iff_answer_eq.mpr hanswer
        rw [h n (Nat.lt_succ_self n)] at hend
        cases hend
      · have hpassed : start < (afterCalls checked source (n + 1)).offset := hconsumes.2
        have hstart : (afterCalls checked source n).offset ≤ start := hconsumes.1
        omega

theorem exists_end (checked : Bool) (source : Text) :
    ∃ n ≤ source.length, isEnd (answer checked source n) = true := by
  by_contra hnone
  have hall : ∀ i < source.length + 1, isEnd (answer checked source i) = false := by
    intro i hi
    rw [← Bool.not_eq_true]
    exact fun hend => hnone ⟨i, Nat.le_of_lt_succ hi, hend⟩
  have hpassed := le_offset_of_not_end hall
  have hbound : (afterCalls checked source (source.length + 1)).offset ≤ source.length :=
    offset_le_length (source.length + 1)
  omega

/-- The position of a lexer is exact over all calls, whatever they answer. It is
always the end of the text passed so far. A call that does not answer the end
passes at least one byte, and what it answers starts at the first rune that is
not blank. No byte is passed twice. The end is answered for ever once it has been
answered, and at most as many calls answer something else as there are bytes. -/
theorem calls_exact (checked : Bool) (source : Text) :
    (∀ n, (afterCalls checked source n).offset ≤ source.length ∧
      (afterCalls checked source n).loc =
        .after (source.take (afterCalls checked source n).offset) ∧
      source.runes = Text.runes (source.take (afterCalls checked source n).offset) ++
        (afterCalls checked source n).rest ∧
      (afterCalls checked source n).offset ≤ (afterCalls checked source (n + 1)).offset) ∧
    (∀ n, isEnd (answer checked source n) = false →
      ∃ start r rest, Consumes checked source n start ∧
        answerLoc (answer checked source n) = .after (source.take start) ∧
        (source.slice (afterCalls checked source n).offset start).IsBlank ∧
        source.runes = Text.runes (source.take start) ++ r :: rest ∧
        isBlank r.char = false) ∧
    (∀ i j b, Consumes checked source i b → Consumes checked source j b → i = j) ∧
    (∀ i j, i ≤ j → isEnd (answer checked source i) = true →
      answer checked source j = answer checked source i) ∧
    ∃ count ≤ source.length, ∀ n, isEnd (answer checked source n) = true ↔ count ≤ n := by
  refine ⟨?_, ?_, fun i j b => Consumes.unique, ?_, ?_⟩
  · intro n
    have hat := at_afterCalls checked source n
    exact ⟨hat.loc_eq.1, hat.loc_eq.2, hat.runes_eq, offset_le_next n⟩
  · intro n hother
    rcases call_cases checked source n with ⟨hanswer, _⟩ | ⟨_, hcall⟩
    · rw [hanswer] at hother
      cases hother
    · exact hcall
  · intro i j hij hend
    rw [isEnd_iff_answer_eq.mp hend, isEnd_iff_answer_eq.mp (isEnd_of_le hij hend)]
  · have hexists : ∃ n, isEnd (answer checked source n) = true :=
      (exists_end checked source).imp fun _ h => h.2
    refine ⟨Nat.find hexists, ?_, ?_⟩
    · obtain ⟨n, hle, hend⟩ := exists_end checked source
      exact Nat.le_trans (Nat.find_min' hexists hend) hle
    · intro n
      constructor
      · exact fun hend => Nat.find_min' hexists hend
      · exact fun hle => isEnd_of_le hle (Nat.find_spec hexists)

/-- A lone equals sign before a line break, and a number that is too large: the
lexer goes on after both errors, and stays at the end. -/
example : (List.range 5).map (fun n => answerLoc (answer true "=\n8 18446744073709551616 " n)) =
    [⟨1, 1, 0⟩, ⟨2, 1, 2⟩, ⟨2, 3, 4⟩, ⟨2, 24, 25⟩, ⟨2, 24, 25⟩] := by
  with_unfolding_all rfl

end ArithAsm.Lexer
