import ArithAsm.Proofs.Lexing

/-!
A lexer that reads its source rune by rune and takes a rune back when it has read one
too many. Its state is that of the reading: the rune that was read last, whether this
one was taken back, and the column before it, since a newline does not tell in which
column it stood. The lexer of this library sees the runes ahead instead. Call by call
the two do the same.
-/

namespace ArithAsm

/-- Passes the runes in front that satisfy a predicate. -/
def Lexer.passing (p : Rune → Bool) (l : Lexer) : Lexer :=
  ⟨l.rest.dropWhile p, l.loc.past (l.rest.takeWhile p)⟩

structure PushbackLexer where
  input : List Rune
  loc : Location
  previousColumn : Int
  last : Rune
  hasUnread : Bool
  column_eq : hasUnread = true → loc.column = previousColumn

namespace PushbackLexer

def ofText (source : Text) : PushbackLexer where
  input := source.runes
  loc := .start
  previousColumn := 1
  last := ⟨Char.ofNat 0, []⟩
  hasUnread := false
  column_eq := by simp

/-- Reads the next rune, which is the last one again if that was taken back. -/
def readRune (l : PushbackLexer) : Option Rune × PushbackLexer :=
  if l.hasUnread then
    (some l.last,
      { l with loc := l.loc.advance l.last, hasUnread := false, column_eq := by simp })
  else
    match l.input with
    | [] => (none, { l with previousColumn := l.loc.column, column_eq := fun _ => rfl })
    | r :: rest =>
        (some r,
          { input := rest
            loc := l.loc.advance r
            previousColumn := l.loc.column
            last := r
            hasUnread := false
            column_eq := by simp })

/-- Takes the last rune back. -/
def unreadRune (l : PushbackLexer) : PushbackLexer :=
  { l with
    loc :=
      { line := if l.last.char = '\n' then l.loc.line - 1 else l.loc.line
        column := l.previousColumn
        offset := l.loc.offset - l.last.width }
    hasUnread := true
    column_eq := fun _ => rfl }

/-- The runes that will be read. -/
def pending (l : PushbackLexer) : List Rune :=
  if l.hasUnread then l.last :: l.input else l.input

/-- The lexer that has the same runes ahead. -/
def view (l : PushbackLexer) : Lexer :=
  ⟨l.pending, l.loc⟩

@[simp] theorem view_rest (l : PushbackLexer) : l.view.rest = l.pending := rfl

@[simp] theorem view_loc (l : PushbackLexer) : l.view.loc = l.loc := rfl

section Reading

variable {l l' : PushbackLexer} {r : Rune}

theorem readRune_eq_none (h : l.readRune = (none, l')) : l.pending = [] ∧ l'.view = l.view := by
  unfold readRune at h
  split at h
  · cases h
  · rename_i hread
    split at h
    · rename_i hinput
      obtain rfl := (Prod.mk.inj h).2
      simp [view, pending, hread, hinput]
    · cases h

/-- A rune that was read is the next one, and it can be taken back. -/
theorem readRune_eq_some (h : l.readRune = (some r, l')) :
    l.pending = r :: l'.pending ∧ l'.loc = l.loc.advance r ∧ l'.unreadRune.view = l.view := by
  have hback (column : Int) (hcolumn : l.loc.column = column) :
      { line := if r.char = '\n' then (l.loc.advance r).line - 1 else (l.loc.advance r).line
        column := column
        offset := (l.loc.advance r).offset - r.width : Location } = l.loc := by
    subst hcolumn
    unfold Location.advance
    split <;> simp
  unfold readRune at h
  split at h
  · rename_i hunread
    obtain ⟨hr, rfl⟩ := Prod.mk.inj h
    obtain rfl := Option.some.inj hr
    have hloc := hback l.previousColumn (l.column_eq hunread)
    simp [view, pending, unreadRune, hunread, hloc]
  · rename_i hread
    split at h
    · cases h
    · rename_i hinput
      obtain ⟨hr, rfl⟩ := Prod.mk.inj h
      obtain rfl := Option.some.inj hr
      have hloc := hback l.loc.column rfl
      simp [view, pending, unreadRune, hread, hinput, hloc]

theorem pending_length_lt (h : l.readRune = (some r, l')) :
    l'.pending.length < l.pending.length := by
  rw [(readRune_eq_some h).1, List.length_cons]
  omega

variable {p : Rune → Bool}

theorem passing_of_none (h : l.readRune = (none, l')) : l'.view = l.view.passing p := by
  obtain ⟨hpending, hview⟩ := readRune_eq_none h
  rw [hview]
  simp [Lexer.passing, hpending, Location.past, view]

theorem passing_of_pos (h : l.readRune = (some r, l')) (hp : p r = true) :
    l'.view.passing p = l.view.passing p := by
  obtain ⟨hpending, hloc, _⟩ := readRune_eq_some h
  simp [Lexer.passing, hpending, hloc, hp, Location.past]

theorem passing_of_neg (h : l.readRune = (some r, l')) (hp : p r = false) :
    l'.unreadRune.view = l.view.passing p := by
  obtain ⟨hpending, _, hback⟩ := readRune_eq_some h
  rw [hback]
  simp [Lexer.passing, hpending, hp, Location.past, view]

end Reading

def skipSpace (l : PushbackLexer) : PushbackLexer :=
  match _h : l.readRune with
  | (none, l') => l'
  | (some r, l') => if isBlank r.char then skipSpace l' else l'.unreadRune
termination_by l.pending.length
decreasing_by exact pending_length_lt ‹_›

/-- The digits that come next, behind those that have been read. -/
def readDigits (l : PushbackLexer) (digits : Text) : Text × PushbackLexer :=
  match _h : l.readRune with
  | (none, l') => (digits, l')
  | (some r, l') =>
      if Lexer.isDigit r then readDigits l' (digits ++ Text.ofChar r.char)
      else (digits, l'.unreadRune)
termination_by l.pending.length
decreasing_by exact pending_length_lt ‹_›

def single (start : Location) (c : Char) : Except LexError Lexeme :=
  match Lexer.singleKind? c with
  | some kind => .ok ⟨kind, Text.ofChar c, 0, start⟩
  | none => .error ⟨.invalidToken, start, Text.ofChar c⟩

/-- Tries two characters first, and falls back to one. -/
def comparison (l : PushbackLexer) (start : Location) (first : Char) :
    Except LexError Lexeme × PushbackLexer :=
  match l.readRune with
  | (none, l') => (single start first, l')
  | (some second, l') =>
      match Lexer.pairKind? first second.char with
      | some kind => (.ok ⟨kind, Text.ofChar first ++ Text.ofChar second.char, 0, start⟩, l')
      | none => (single start first, l'.unreadRune)

def startsComparison (c : Char) : Bool :=
  c == '=' || c == '!' || c == '<' || c == '>'

def next (checked : Bool) (l : PushbackLexer) : Except LexError Lexeme × PushbackLexer :=
  let start := l.skipSpace.loc
  match l.skipSpace.readRune with
  | (none, l') => (.ok (.eofAt start), l')
  | (some r, l') =>
      if Lexer.isDigit r then
        let (digits, l'') := l'.unreadRune.readDigits []
        (Lexer.number checked start digits, l'')
      else if startsComparison r.char then l'.comparison start r.char
      else (single start r.char, l')

/-- Blanks are passed, and the first rune behind them was read and taken back. -/
theorem view_skipSpace (l : PushbackLexer) : l.skipSpace.view = l.view.skipBlanks := by
  change _ = l.view.passing (isBlank ·.char)
  fun_induction skipSpace l with
  | case1 l l' h => exact passing_of_none h
  | case2 l r l' h hblank ih => rw [ih, passing_of_pos h hblank]
  | case3 l r l' h hblank => exact passing_of_neg h (by simpa using hblank)

theorem view_readDigits (l : PushbackLexer) (digits : Text) :
    (l.readDigits digits).2.view = l.view.passing Lexer.isDigit := by
  fun_induction readDigits l digits with
  | case1 l digits l' h => exact passing_of_none h
  | case2 l digits r l' h hdigit ih => rw [ih, passing_of_pos h hdigit]
  | case3 l digits r l' h hdigit => exact passing_of_neg h (by simpa using hdigit)

theorem readDigits_text (l : PushbackLexer) (digits : Text) :
    (l.readDigits digits).1 =
      digits ++ (l.pending.takeWhile Lexer.isDigit).flatMap fun r => Text.ofChar r.char := by
  fun_induction readDigits l digits with
  | case1 l digits l' h => simp [(readRune_eq_none h).1]
  | case2 l digits r l' h hdigit ih => simp [ih, (readRune_eq_some h).1, hdigit]
  | case3 l digits r l' h hdigit => simp [(readRune_eq_some h).1, hdigit]

section Calls

variable {source : Text} {n : Nat}

theorem ofChar_eq_bytes {r : Rune} (h : r ∈ source.runes) (hchar : r.char.toNat < 0x80) :
    Text.ofChar r.char = r.bytes := by
  rcases Text.ofChar_cases r.char with ⟨_, hc⟩ | ⟨hwide, _⟩
  · rw [hc, Rune.bytes_eq_ofChar h hchar]
  · omega

theorem flatMap_ofChar {rs : List Rune} (hrunes : ∀ r ∈ rs, r ∈ source.runes) :
    ((rs.takeWhile Lexer.isDigit).flatMap fun r => Text.ofChar r.char) =
      Text.ofRunes (rs.takeWhile Lexer.isDigit) := by
  refine List.flatMap_congr fun r hr => ?_
  have hdigit : Lexer.isDigit r = true := List.mem_takeWhile_imp hr
  exact ofChar_eq_bytes (hrunes r ((List.takeWhile_subset _) hr)) (Lexer.toNat_lt_of_isDigit hdigit)

/-- The number is read with its first digit, which has been taken back for that. -/
theorem scan_of_isDigit {checked : Bool} {loc : Location} {r : Rune} {rest : List Rune}
    (h : Lexer.isDigit r = true) :
    Lexer.scan checked loc r rest =
      (Lexer.number checked loc (Text.ofRunes ((r :: rest).takeWhile Lexer.isDigit)),
        Lexer.passing Lexer.isDigit ⟨r :: rest, loc⟩) := by
  have htake : rest.take (rest.takeWhile Lexer.isDigit).length = rest.takeWhile Lexer.isDigit :=
    (List.prefix_iff_eq_take.mp (List.takeWhile_prefix Lexer.isDigit)).symm
  simp [Lexer.scan, h, Lexer.advance, Lexer.passing, htake, Lexer.drop_length_takeWhile]

theorem single_eq {checked : Bool} {loc : Location} {r : Rune} {rest : List Rune}
    (hr : r ∈ source.runes) (hdigit : Lexer.isDigit r = false)
    (hpair : ∀ next ∈ rest.head?, Lexer.pairKind? r.char next.char = none) :
    Lexer.scan checked loc r rest = (single loc r.char, ⟨rest, loc.advance r⟩) := by
  have hsymbol : Lexer.symbol? r rest = (Lexer.singleKind? r.char).map (·, 0) := by
    cases rest with
    | nil => rfl
    | cons next rest => simp [Lexer.symbol?, hpair next rfl]
  unfold Lexer.scan single
  rw [hsymbol]
  cases hsingle : Lexer.singleKind? r.char with
  | none => simp [hdigit, Lexer.advance, Location.past]
  | some kind =>
      obtain ⟨hascii, _⟩ := Lexer.singleKind?_spells hsingle
      simp [hdigit, Lexer.advance, Location.past, Text.ofRunes, ofChar_eq_bytes hr hascii]

theorem comparison_eq {l : PushbackLexer} {checked : Bool} {loc : Location} {r : Rune}
    (hloc : l.loc = loc.advance r)
    (hrunes : ∀ r' ∈ r :: l.pending, r' ∈ source.runes) (hdigit : Lexer.isDigit r = false) :
    ((l.comparison loc r.char).1, (l.comparison loc r.char).2.view) =
      Lexer.scan checked loc r l.pending := by
  have hr : r ∈ source.runes := hrunes r List.mem_cons_self
  unfold comparison
  cases hread : l.readRune with
  | mk second l' =>
      cases second with
      | none =>
          obtain ⟨hpending, hview⟩ := readRune_eq_none hread
          rw [single_eq hr hdigit (by simp [hpending]), ← hloc]
          exact congrArg (single loc r.char, ·) hview
      | some second =>
          obtain ⟨hpending, hloc', hback⟩ := readRune_eq_some hread
          cases hpair : Lexer.pairKind? r.char second.char with
          | none =>
              rw [single_eq hr hdigit (by simp [hpending, hpair]), ← hloc]
              simp only [hpair]
              exact congrArg (single loc r.char, ·) hback
          | some kind =>
              obtain ⟨hascii, hascii', _⟩ := Lexer.pairKind?_spells hpair
              have hsecond : second ∈ source.runes := hrunes second (by simp [hpending])
              simp [hpair, Lexer.scan, hdigit, hpending, Lexer.symbol?, Lexer.advance,
                Location.past, Text.ofRunes, ofChar_eq_bytes hr hascii,
                ofChar_eq_bytes hsecond hascii', view, hloc', hloc]

theorem pairKind?_of_not_startsComparison {c d : Char} (h : startsComparison c = false) :
    Lexer.pairKind? c d = none := by
  unfold Lexer.pairKind?
  split <;> first | rfl | cases h

/-- One call does what a call of the lexer with the same runes ahead does. -/
theorem next_eq {l : PushbackLexer} (h : Lexer.At source n l.view) (checked : Bool) :
    ((l.next checked).1, (l.next checked).2.view) = l.view.next checked := by
  have hview := view_skipSpace l
  obtain ⟨m, _, hat, _⟩ := h.skipBlanks
  rw [← hview] at hat
  unfold next
  generalize l.skipSpace = k at hview hat
  cases hread : k.readRune with
  | mk r k' =>
      cases r with
      | none =>
          obtain ⟨hpending, hback⟩ := readRune_eq_none hread
          rw [Lexer.next_of_nil (by rw [← hview]; exact hpending), ← hview]
          simp [hback]
      | some r =>
          obtain ⟨hpending, hloc, hback⟩ := readRune_eq_some hread
          have hrunes : ∀ r' ∈ r :: k'.pending, r' ∈ source.runes := by
            rw [← hpending]
            exact fun r' hr' => hat.mem_runes hr'
          rw [Lexer.next_of_cons (by rw [← hview]; exact hpending), ← hview]
          dsimp only
          split
          · rename_i hdigit
            have hk : k'.unreadRune.pending = r :: k'.pending := by
              rw [← hpending]
              exact congrArg Lexer.rest hback
            rw [scan_of_isDigit hdigit, ← flatMap_ofChar hrunes]
            simp only [readDigits_text, view_readDigits, hback, hk]
            simp [view, hpending]
          rename_i hdigit
          split
          · exact comparison_eq hloc hrunes (by simpa using hdigit)
          · rename_i hstarts
            rw [single_eq (hrunes r List.mem_cons_self) (by simpa using hdigit)
              fun _ _ => pairKind?_of_not_startsComparison (by simpa using hstarts)]
            simp [view, hloc]

theorem next_view {l l' : PushbackLexer} (h : Lexer.At source n l.view) {checked : Bool}
    {answer : Except LexError Lexeme} (hnext : l.next checked = (answer, l')) :
    l.view.next checked = (answer, l'.view) := by
  rw [← next_eq h, hnext]

end Calls

section Progress

variable {l l' : PushbackLexer}

theorem comparison_pending_length_le (l : PushbackLexer) (start : Location) (first : Char) :
    (l.comparison start first).2.pending.length ≤ l.pending.length := by
  unfold comparison
  cases hread : l.readRune with
  | mk second l' =>
      cases second with
      | none =>
          have hview := (readRune_eq_none hread).2
          exact (congrArg (·.rest.length) hview).le
      | some second =>
          obtain ⟨hpending, _, hback⟩ := readRune_eq_some hread
          cases hpair : Lexer.pairKind? first second.char with
          | none =>
              simp only [hpair]
              exact (congrArg (·.rest.length) hback).le
          | some kind => simp [hpair, hpending]

/-- A call that does not answer the end marker leaves fewer runes. -/
theorem next_pending_length_lt {checked : Bool} {lexeme : Lexeme}
    (h : l.next checked = (.ok lexeme, l')) (hkind : lexeme.kind ≠ .eof) :
    l'.pending.length < l.pending.length := by
  have hskip : l.skipSpace.pending.length ≤ l.pending.length := by
    have hrest : l.skipSpace.pending = l.pending.dropWhile (isBlank ·.char) :=
      congrArg Lexer.rest (view_skipSpace l)
    rw [hrest]
    exact (List.dropWhile_sublist _).length_le
  unfold next at h
  generalize l.skipSpace = k at h hskip
  cases hread : k.readRune with
  | mk r k' =>
      rw [hread] at h
      cases r with
      | none =>
          obtain ⟨hanswer, _⟩ := Prod.mk.inj h
          obtain rfl := Except.ok.inj hanswer
          exact absurd rfl hkind
      | some r =>
          have hlt := pending_length_lt hread
          suffices l'.pending.length ≤ k'.pending.length by omega
          simp only at h
          split at h
          · rename_i hdigit
            obtain rfl := (Prod.mk.inj h).2
            have hrest : (k'.unreadRune.readDigits []).2.pending =
                k'.pending.dropWhile Lexer.isDigit := by
              have hview := view_readDigits k'.unreadRune []
              rw [(readRune_eq_some hread).2.2, ← passing_of_pos hread hdigit] at hview
              exact congrArg Lexer.rest hview
            rw [hrest]
            exact (List.dropWhile_sublist _).length_le
          split at h
          · rw [← (Prod.mk.inj h).2]
            exact comparison_pending_length_le k' _ r.char
          · rw [(Prod.mk.inj h).2]

end Progress

/-- All lexemes up to and with the end marker, or the first error. -/
def lexemes (checked : Bool) (l : PushbackLexer) : Except LexError (List Lexeme) :=
  match _h : l.next checked with
  | (.error e, _) => .error e
  | (.ok lexeme, l') =>
      if _hkind : lexeme.kind = .eof then .ok [lexeme]
      else (lexemes checked l').map (lexeme :: ·)
termination_by l.pending.length
decreasing_by exact next_pending_length_lt ‹_› ‹_›

theorem lexemes_eq {source : Text} {n : Nat} {checked : Bool} {l : PushbackLexer}
    (h : Lexer.At source n l.view) : l.lexemes checked = l.view.lexemes checked := by
  fun_induction lexemes checked l generalizing n with
  | case1 l e l' hnext => rw [Lexer.lexemes_of_error (by rw [next_view h hnext])]
  | case2 l lexeme l' hnext hkind => rw [Lexer.lexemes_of_eof (by rw [next_view h hnext]) hkind]
  | case3 l lexeme l' hnext hkind ih =>
      have hcall := next_view h hnext
      obtain ⟨_, k, _, _, hat, _⟩ := h.next checked
      rw [hcall] at hat
      rw [Lexer.lexemes_of_ok (by rw [hcall]) hkind, hcall, ih hat]

/-- The lexemes of a text do not depend on how its runes are read. -/
theorem lexemes_ofText (checked : Bool) (source : Text) :
    (ofText source).lexemes checked = tokenize checked source :=
  lexemes_eq (Lexer.at_ofText source)

end PushbackLexer

end ArithAsm
