import ArithAsm.Proofs.Compilation
import ArithAsm.Proofs.LexicalErrors

/-!
What checking numbers changes. A checked lexer passes the same text as an
unchecked one and differs from it at one point only: a number that no word can hold
is an error. So both give the same lexemes as long as every number fits, and the
first number that does not fit is where the checked lexer stops, unless another
error comes before it.
-/

namespace ArithAsm

namespace Lexeme

/-- A number that no word can hold. -/
def oversized (l : Lexeme) : Bool :=
  l.kind = .number && UInt64.size ≤ Decimal.value l.text

/-- The error that an oversized number is reported as. -/
def overflow (l : Lexeme) : LexError :=
  ⟨.numberOverflow, l.loc, l.text⟩

/-- The lexeme, unless it is an oversized number. -/
def checked (l : Lexeme) : Except LexError Lexeme :=
  if l.oversized then .error l.overflow else .ok l

/-- The lexemes, unless some number among them is oversized; the first one counts. -/
def allChecked (ls : List Lexeme) : Except LexError (List Lexeme) :=
  (ls.find? oversized).elim (.ok ls) fun l => .error l.overflow

theorem oversized_iff {l : Lexeme} :
    l.oversized = true ↔ l.kind = .number ∧ UInt64.size ≤ Decimal.value l.text := by
  simp only [oversized, Bool.and_eq_true, decide_eq_true_eq]

theorem oversized_eq_false_iff {l : Lexeme} :
    l.oversized = false ↔ (l.kind = .number → Decimal.value l.text < UInt64.size) := by
  rw [← Bool.not_eq_true, oversized_iff, not_and, Nat.not_le]

theorem checked_of_kind {l : Lexeme} (h : l.kind ≠ .number) : l.checked = .ok l := by
  simp [checked, oversized, h]

theorem allChecked_cons (l : Lexeme) (ls : List Lexeme) :
    allChecked (l :: ls) =
      if l.oversized then .error l.overflow else (allChecked ls).map (l :: ·) := by
  by_cases hl : l.oversized = true
  · simp [allChecked, hl]
  · cases hfind : ls.find? oversized with
    | none => simp [allChecked, hl, hfind]
    | some l' => simp [allChecked, hl, hfind]

theorem allChecked_eq_ok_iff {ls ls' : List Lexeme} :
    allChecked ls = .ok ls' ↔ ls = ls' ∧ ∀ l ∈ ls, l.oversized = false := by
  cases hfind : ls.find? oversized with
  | none =>
      have hfits : ∀ l ∈ ls, l.oversized = false := by
        simpa [List.find?_eq_none] using hfind
      rw [allChecked, hfind]
      exact ⟨fun h => ⟨Except.ok.inj h, hfits⟩, fun h => congrArg Except.ok h.1⟩
  | some l =>
      have hl := List.find?_some hfind
      have hmem := List.mem_of_find?_eq_some hfind
      constructor
      · intro h
        simp [allChecked, hfind] at h
      · rintro ⟨_, hfits⟩
        rw [hfits l hmem] at hl
        cases hl

theorem allChecked_eq_error_iff {ls : List Lexeme} {err : LexError} :
    allChecked ls = .error err ↔
      ∃ before l after, ls = before ++ l :: after ∧ (∀ l' ∈ before, l'.oversized = false) ∧
        l.oversized = true ∧ err = l.overflow := by
  have hfirst : allChecked ls = .error err ↔
      ∃ l, ls.find? oversized = some l ∧ err = l.overflow := by
    cases hfind : ls.find? oversized with
    | none => simp [allChecked, hfind]
    | some l => simp [allChecked, hfind, eq_comm]
  rw [hfirst]
  constructor
  · rintro ⟨l, hfind, herr⟩
    obtain ⟨hl, before, after, hls, hbefore⟩ := List.find?_eq_some_iff_append.mp hfind
    exact ⟨before, l, after, hls, by simpa using hbefore, hl, herr⟩
  · rintro ⟨before, l, after, hls, hbefore, hl, herr⟩
    refine ⟨l, ?_, herr⟩
    apply List.find?_eq_some_iff_append.mpr
    exact ⟨hl, before, after, hls, by simpa using hbefore⟩

end Lexeme

namespace Lexer

section Calls

variable (loc : Location) (l : Lexer)

theorem number_checked (digits : Text) :
    number true loc digits = number false loc digits >>= Lexeme.checked := by
  simp [number, Lexeme.checked, Lexeme.oversized, Lexeme.overflow]

theorem scan_checked (r : Rune) (rest : List Rune) :
    scan true loc r rest =
      ((scan false loc r rest).1 >>= Lexeme.checked, (scan false loc r rest).2) := by
  by_cases hdigit : isDigit r = true
  · simp only [scan, hdigit, if_true, number_checked]
  · cases hsymbol : symbol? r rest with
    | none => simp [scan, hdigit, hsymbol]
    | some found =>
        obtain ⟨k, count⟩ := found
        have hk : k ≠ .number := (symbol?_ends hsymbol).1
        simp [scan, hdigit, hsymbol, Lexeme.checked_of_kind, hk]

/-- A checked call passes the same text and checks the answer of an unchecked one. -/
theorem next_checked :
    l.next true = ((l.next false).1 >>= Lexeme.checked, (l.next false).2) := by
  cases hrest : l.skipBlanks.rest with
  | nil =>
      have heof : (Lexeme.eofAt l.skipBlanks.loc).kind ≠ .number := by simp [Lexeme.eofAt]
      rw [next_of_nil hrest, next_of_nil hrest, Result.ok_bind, Lexeme.checked_of_kind heof]
  | cons r rest => rw [next_of_cons hrest, next_of_cons hrest, scan_checked]

end Calls

section Runs

variable {l l' : Lexer} {lexeme : Lexeme}

theorem lexemes_checked_of_error {e : LexError} (h : l.next false = (.error e, l')) :
    l.lexemes true = .error e := by
  apply lexemes_of_error
  rw [next_checked, h, Result.error_bind]

theorem lexemes_checked_of_eof (h : l.next false = (.ok lexeme, l'))
    (hkind : lexeme.kind = .eof) : l.lexemes true = .ok [lexeme] := by
  apply lexemes_of_eof ?_ hkind
  rw [next_checked, h, Result.ok_bind]
  exact Lexeme.checked_of_kind (by simp [hkind])

/-- After a lexeme, either it is oversized and ends the run, or the run goes on. -/
theorem lexemes_checked_of_ok (h : l.next false = (.ok lexeme, l'))
    (hkind : lexeme.kind ≠ .eof) :
    l.lexemes true =
      if lexeme.oversized then .error lexeme.overflow
      else (l'.lexemes true).map (lexeme :: ·) := by
  have hnext : l.next true = (lexeme.checked, l') := by
    rw [next_checked, h, Result.ok_bind]
  by_cases hsize : lexeme.oversized = true
  · rw [if_pos hsize]
    apply lexemes_of_error
    rw [hnext, Lexeme.checked, if_pos hsize]
  · have hanswer : (l.next true).1 = .ok lexeme := by
      rw [hnext, Lexeme.checked, if_neg hsize]
    rw [if_neg hsize, lexemes_of_ok hanswer hkind, hnext]

/-- Where the unchecked lexer succeeds, checking can be done afterwards. -/
theorem lexemes_checked {ls : List Lexeme} (h : l.lexemes false = .ok ls) :
    l.lexemes true = Lexeme.allChecked ls := by
  fun_induction lexemes false l generalizing ls with
  | case1 l e l' hnext => cases h
  | case2 l lexeme l' hnext hkind =>
      obtain rfl := Except.ok.inj h
      have hfits : lexeme.oversized = false := by simp [Lexeme.oversized, hkind]
      rw [lexemes_checked_of_eof hnext hkind, eq_comm, Lexeme.allChecked_eq_ok_iff]
      simp [hfits]
  | case3 l lexeme l' hnext hkind ih =>
      obtain ⟨rest, hrest, rfl⟩ := Result.map_eq_ok_iff.mp h
      rw [lexemes_checked_of_ok hnext hkind, Lexeme.allChecked_cons, ih hrest]

/-- Where the unchecked lexer fails, the checked one fails there too, or with an
oversized number before that. Induction over the calls; `n` is the place where the
lexer stands, and both errors come from there on. -/
theorem At.lexemes_checked_error {source : Text} {n : Nat} {err : LexError}
    (h : At source n l) (herr : l.lexemes false = .error err) :
    ∃ k, n ≤ k ∧ k ≤ source.length ∧ err.loc = .after (source.take k) ∧
      (l.lexemes true = .error err ∨
        ∃ j err', j < k ∧ l.lexemes true = .error err' ∧
          err'.loc = .after (source.take j) ∧ err'.cause = .numberOverflow) := by
  fun_induction lexemes false l generalizing n with
  | case1 l e l' hnext =>
      obtain rfl := Except.error.inj herr
      obtain ⟨m, hle, _, ⟨_, _, hend⟩ | ⟨_, _, k, _, _, hlt, hat, haccounts⟩⟩ := h.call false
      · rw [hnext] at hend
        cases hend
      · rw [hnext] at hat haccounts
        have hk : k ≤ source.length := hat.loc_eq.1
        exact ⟨m, hle, by omega, haccounts, .inl (lexemes_checked_of_error hnext)⟩
  | case2 l lexeme l' hnext hkind => cases herr
  | case3 l lexeme l' hnext hkind ih =>
      have hrest : l'.lexemes false = .error err := Result.map_eq_error_iff.mp herr
      obtain ⟨m, hle, _, ⟨_, _, hend⟩ | ⟨_, _, k, _, _, hlt, hat, haccounts⟩⟩ := h.call false
      · rw [hnext] at hend
        obtain rfl := Except.ok.inj hend
        exact absurd rfl hkind
      rw [hnext] at hat haccounts
      obtain ⟨k', hk', hlength, hloc, hchecked⟩ := ih hat hrest
      refine ⟨k', by omega, hlength, hloc, ?_⟩
      rw [lexemes_checked_of_ok hnext hkind]
      by_cases hsize : lexeme.oversized = true
      · rw [if_pos hsize]
        exact .inr ⟨m, lexeme.overflow, by omega, rfl, haccounts.1, rfl⟩
      · rw [if_neg hsize]
        rcases hchecked with hsame | ⟨j, err', hj, herr', hloc', hcause⟩
        · exact .inl (by rw [hsame, Result.map_error])
        · exact .inr ⟨j, err', hj, by rw [herr', Result.map_error], hloc', hcause⟩

end Runs

end Lexer

section Tokenize

variable {source : Text} {ls : List Lexeme}

theorem tokenize_checked (h : tokenize false source = .ok ls) :
    tokenize true source = Lexeme.allChecked ls :=
  Lexer.lexemes_checked h

/-- An error of the unchecked lexer stays, unless a number before it is too large. -/
theorem tokenize_checked_of_error {err : LexError} (h : tokenize false source = .error err) :
    tokenize true source = .error err ∨
      ∃ j k, j < k ∧ k ≤ source.length ∧ err.loc = .after (source.take k) ∧
        UInt64.size ≤ Decimal.value (Decimal.leading (source.drop j)) ∧
        tokenize true source =
          .error ⟨.numberOverflow, .after (source.take j), Decimal.leading (source.drop j)⟩ := by
  obtain ⟨k, _, hk, hloc, hsame | ⟨j, err', hj, herr', hloc', hcause⟩⟩ :=
    (Lexer.at_ofText source).lexemes_checked_error h
  · exact .inl hsame
  · have herr' : tokenize true source = .error err' := herr'
    obtain ⟨j', hscanned, hafter, hstuck⟩ := scanned_of_error herr'
    obtain rfl : j = j' := by
      have hoffset := congrArg Location.offset (hloc'.symm.trans hafter)
      have hj' := hscanned.le_length
      simp only [Location.after, List.length_take] at hoffset
      omega
    obtain ⟨cause, loc, text⟩ := err'
    obtain rfl : cause = .numberOverflow := hcause
    obtain rfl : loc = .after (source.take j) := hloc'
    cases hstuck with
    | overflow _ hvalue => exact .inr ⟨j, k, hj, hk, hloc, hvalue, herr'⟩

theorem tokenize_of_checked (h : tokenize true source = .ok ls) :
    tokenize false source = .ok ls ∧ ∀ l ∈ ls, l.oversized = false := by
  cases hplain : tokenize false source with
  | error err =>
      rcases tokenize_checked_of_error hplain with hsame | ⟨_, _, _, _, _, _, herr⟩
      · rw [hsame] at h
        cases h
      · rw [herr] at h
        cases h
  | ok ls' =>
      rw [tokenize_checked hplain, Lexeme.allChecked_eq_ok_iff] at h
      obtain ⟨rfl, hfits⟩ := h
      exact ⟨rfl, hfits⟩

theorem Word.values_of_reads {ws : List Word} (h : List.Forall₂ Word.Reads ws ls) :
    ∀ l ∈ ls, l.kind = .number → l.value.toNat = Decimal.value l.text % UInt64.size := by
  induction h with
  | nil => simp
  | @cons w l ws ls hw _ ih =>
      have hkind : l.kind = w.kind := congrArg Lexeme.kind hw
      have htext : l.text = w.text := congrArg Lexeme.text hw
      intro l' hl' hnumber
      rcases List.mem_cons.mp hl' with rfl | hl'
      · rw [htext]
        exact hw.value_eq (hkind.symm.trans hnumber)
      · exact ih l' hl' hnumber

/-- The value of every number is that of its digits, modulo 2^64. -/
theorem value_of_tokenize {checked : Bool} (h : tokenize checked source = .ok ls) :
    ∀ l ∈ ls, l.kind = .number → l.value.toNat = Decimal.value l.text % UInt64.size := by
  obtain ⟨ws, hspaced, hfits⟩ := spaced_of_ok h
  obtain ⟨body, hreads, hlexemes⟩ := hspaced.lexemes_eq hfits .start
  obtain rfl : ls = body ++ [_] := Except.ok.inj (h.symm.trans hlexemes)
  intro l hl hkind
  rcases List.mem_append.mp hl with hl | hl
  · exact Word.values_of_reads hreads l hl hkind
  · obtain rfl := List.mem_singleton.mp hl
    cases hkind

theorem compile_unchecked {t : Target} {allowTrailing : Bool} {c : Compilation}
    (h : compile t ⟨allowTrailing, true⟩ source = .ok c) :
    compile t ⟨allowTrailing, false⟩ source = .ok c := by
  obtain ⟨ls, hls, h⟩ := Result.bind_eq_ok_iff.mp h
  have hplain : tokenize false source = .ok ls :=
    (tokenize_of_checked (Result.mapError_eq_ok_iff.mp hls)).1
  have hread : readLexemes ⟨allowTrailing, false⟩ source = .ok ls := by
    rw [readLexemes, hplain, Result.mapError_ok]
  rw [compile, hread, Result.ok_bind]
  exact h

end Tokenize

/-- The longest run of digits at the front of a text gives the number there. -/
theorem scanNumber_longest (t : Text) :
    ∃ digits rest, t = digits ++ rest ∧ (∀ b ∈ digits, Decimal.isDigit b = true) ∧
      (∀ b ∈ rest.head?, Decimal.isDigit b = false) ∧ (scanNumber t).2 = digits.length ∧
      (scanNumber t).1.toNat = Decimal.value digits % UInt64.size := by
  refine ⟨Decimal.leading t, t.dropWhile Decimal.isDigit,
    List.takeWhile_append_dropWhile.symm, fun b hb => List.mem_takeWhile_imp hb, ?_, ?_, ?_⟩
  · intro b hb
    have hhead := List.head?_dropWhile_not Decimal.isDigit t
    rw [Option.mem_def.mp hb] at hhead
    exact hhead
  · rw [scanNumber_eq]
  · rw [scanNumber_eq]
    exact UInt64.toNat_ofNat'

/-- Checked and unchecked numbers agree exactly below 2^64. Scanning takes the
longest run of digits and its value modulo 2^64. What the checked lexer accepts, the
unchecked one reads as the same lexemes, and the values are exact. What the unchecked
one accepts, the checked one refuses if and only if some number is too large, at the
first such number. Where the unchecked one fails, the checked one fails with the same
error or with a number before it that is too large. So a text that compiles with
checked numbers compiles to the same result without the check. -/
theorem checked_numbers_agree :
    (∀ t : Text, ∃ digits rest, t = digits ++ rest ∧
      (∀ b ∈ digits, Decimal.isDigit b = true) ∧
      (∀ b ∈ rest.head?, Decimal.isDigit b = false) ∧ (scanNumber t).2 = digits.length ∧
      (scanNumber t).1.toNat = Decimal.value digits % UInt64.size) ∧
    (∀ source ls, tokenize true source = .ok ls →
      tokenize false source = .ok ls ∧
        ∀ l ∈ ls, l.kind = .number → l.value.toNat = Decimal.value l.text) ∧
    (∀ source ls, tokenize false source = .ok ls →
      ((∃ err, tokenize true source = .error err) ↔
        ∃ l ∈ ls, l.kind = .number ∧ UInt64.size ≤ Decimal.value l.text) ∧
      ∀ err, tokenize true source = .error err →
        ∃ before l after, ls = before ++ l :: after ∧
          (∀ l' ∈ before, l'.kind = .number → Decimal.value l'.text < UInt64.size) ∧
          l.kind = .number ∧ UInt64.size ≤ Decimal.value l.text ∧
          err = ⟨.numberOverflow, l.loc, l.text⟩) ∧
    (∀ source err, tokenize false source = .error err →
      tokenize true source = .error err ∨
        ∃ j k, j < k ∧ k ≤ source.length ∧ err.loc = .after (source.take k) ∧
          UInt64.size ≤ Decimal.value (Decimal.leading (source.drop j)) ∧
          tokenize true source = .error
            ⟨.numberOverflow, .after (source.take j), Decimal.leading (source.drop j)⟩) ∧
    ∀ t allowTrailing source c, compile t ⟨allowTrailing, true⟩ source = .ok c →
      compile t ⟨allowTrailing, false⟩ source = .ok c := by
  refine ⟨scanNumber_longest, ?_, ?_, fun source err => tokenize_checked_of_error,
    fun t allowTrailing source c => compile_unchecked⟩
  · intro source ls h
    obtain ⟨hplain, hfits⟩ := tokenize_of_checked h
    refine ⟨hplain, ?_⟩
    intro l hl hkind
    have hlt : Decimal.value l.text < UInt64.size :=
      Lexeme.oversized_eq_false_iff.mp (hfits l hl) hkind
    rw [value_of_tokenize h l hl hkind, Nat.mod_eq_of_lt hlt]
  · intro source ls h
    have hfirst : ∀ err, tokenize true source = .error err ↔
        ∃ before l after, ls = before ++ l :: after ∧
          (∀ l' ∈ before, l'.kind = .number → Decimal.value l'.text < UInt64.size) ∧
          l.kind = .number ∧ UInt64.size ≤ Decimal.value l.text ∧
          err = ⟨.numberOverflow, l.loc, l.text⟩ := by
      intro err
      rw [tokenize_checked h, Lexeme.allChecked_eq_error_iff]
      simp only [Lexeme.oversized_eq_false_iff, Lexeme.oversized_iff, and_assoc, Lexeme.overflow]
    refine ⟨⟨?_, ?_⟩, fun err => (hfirst err).mp⟩
    · rintro ⟨err, herr⟩
      obtain ⟨before, l, after, rfl, _, hkind, hsize, _⟩ := (hfirst err).mp herr
      exact ⟨l, by simp, hkind, hsize⟩
    · rintro ⟨l, hl, hkind, hsize⟩
      cases hchecked : tokenize true source with
      | error err => exact ⟨err, rfl⟩
      | ok ls' =>
          obtain ⟨hplain, hfits⟩ := tokenize_of_checked hchecked
          obtain rfl := Except.ok.inj (h.symm.trans hplain)
          have hlt := Lexeme.oversized_eq_false_iff.mp (hfits l hl) hkind
          omega

/-- A sum whose second number is too large, and a stray character after it. -/
def strayAfterOverflow : Text := "1+18446744073709551616 ?"

/-- Without the check the stray character is the error, with it the number is. -/
theorem tokenize_strayAfterOverflow :
    tokenize false strayAfterOverflow =
        .error ⟨.invalidToken, .after "1+18446744073709551616 ", "?"⟩ ∧
      ∃ j k, j < k ∧
        Location.after "1+18446744073709551616 " = .after (strayAfterOverflow.take k) ∧
        tokenize true strayAfterOverflow = .error
          ⟨.numberOverflow, .after (strayAfterOverflow.take j),
            Decimal.leading (strayAfterOverflow.drop j)⟩ := by
  obtain ⟨_, _, _, hfails, _⟩ := checked_numbers_agree
  have hstray : tokenize false strayAfterOverflow =
      .error ⟨.invalidToken, .after "1+18446744073709551616 ", "?"⟩ := by
    with_unfolding_all rfl
  rcases hfails _ _ hstray with hsame | ⟨j, k, hlt, _, hloc, _, hearlier⟩
  · have hoverflow : tokenize true strayAfterOverflow =
        .error ⟨.numberOverflow, .after "1+", "18446744073709551616"⟩ := by
      with_unfolding_all rfl
    rw [hoverflow] at hsame
    cases hsame
  · exact ⟨hstray, j, k, hlt, hloc, hearlier⟩

end ArithAsm
