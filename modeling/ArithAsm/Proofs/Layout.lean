import ArithAsm.Proofs.Spelling
import ArithAsm.Proofs.Unlocated

/-!
How a source is laid out. It is made of words, the lexemes as they are written,
and of blanks between them. Blanks may be left out except where a word would run
into the next one. The lexer finds the words of every layout, so a different layout
of the same words is read as the same expression.
-/

namespace ArithAsm

/-- A lexeme as it is written. -/
structure Word where
  kind : LexemeKind
  text : Text
  spells : kind.Spells text

/-- What separates words, possibly nothing. -/
structure Blanks where
  text : Text
  blank : text.IsBlank

namespace LexemeKind

theorem extendedBy_eq (k : LexemeKind) (r : Rune) :
    k.extendedBy r = ((k = .number && Lexer.isDigit r) ||
      ((k = .lt || k = .gt) && r.char = '=')) := by
  cases k <;> simp [extendedBy]

/-- A blank ends every word. -/
theorem extendedBy_of_isBlank (k : LexemeKind) {r : Rune} (h : isBlank r.char = true) :
    k.extendedBy r = false := by
  have hdigit : Lexer.isDigit r = false := Lexer.isDigit_of_isBlank h
  have hequals : r.char ≠ '=' := by
    intro hequals
    rw [hequals] at h
    cases h
  simp [extendedBy_eq, hdigit, hequals]

theorem Spells.isAscii {k : LexemeKind} {t : Text} (h : k.Spells t) : t.isAscii = true := by
  by_cases hk : k = .number
  · subst hk
    apply List.all_eq_true.mpr
    intro b hb
    have hdigit := Decimal.bounds_of_isDigit (h.2 b hb)
    exact decide_eq_true (UInt8.lt_of_le_of_lt hdigit.2 (by decide))
  · obtain ⟨s, hs, rfl⟩ := h.symbol hk
    cases k <;> cases hs <;> decide

end LexemeKind

namespace Word

/-- Whether `b` right after `a` would be taken for a part of it: digits after
digits, or an equals sign after `<` or `>`. -/
def runsInto (a b : Word) : Bool :=
  (a.kind = .number && b.kind = .number) ||
    ((a.kind = .lt || a.kind = .gt) && (Text.ofString "=").isPrefixOf b.text)

/-- A word starts with a digit if and only if it is a number. -/
theorem isDigit_first {w : Word} {b : UInt8} {t : Text} (h : w.text = b :: t) :
    Lexer.isDigit (.ofAscii b) = decide (w.kind = .number) := by
  obtain ⟨k, text, hspells⟩ := w
  obtain rfl : text = b :: t := h
  by_cases hk : k = .number
  · subst hk
    simpa using Lexer.isDigit_of_digit (hspells.2 b List.mem_cons_self)
  · obtain ⟨s, hs, htext⟩ := hspells.symbol hk
    have hfirst : (Text.ofString s).head?.any (fun c => Lexer.isDigit (.ofAscii c)) = false := by
      cases k <;> cases hs <;> decide
    rw [← htext] at hfirst
    simpa [hk] using hfirst

theorem equals_first (b : UInt8) (t : Text) :
    decide ((Rune.ofAscii b).char = '=') = (Text.ofString "=").isPrefixOf (b :: t) := by
  have hvalid : b.toNat.isValidChar := .inl (Nat.lt_trans b.toNat_lt (by decide))
  have hiff : (Rune.ofAscii b).char = '=' ↔ (61 : UInt8) = b := by
    constructor
    · intro hchar
      have hnat := congrArg Char.toNat hchar
      rw [Rune.ofAscii, Rune.toNat_ofNat hvalid] at hnat
      exact UInt8.toNat_inj.mp hnat.symm
    · rintro rfl
      rfl
  have hequals : Text.ofString "=" = [61] := rfl
  rw [decide_eq_decide.mpr hiff, hequals, List.isPrefixOf_cons_cons,
    List.isPrefixOf_nil_left, Bool.and_true, beq_eq_decide]

theorem extendedBy_first (a : Word) {w : Word} {b : UInt8} {t : Text} (h : w.text = b :: t) :
    a.kind.extendedBy (.ofAscii b) = a.runsInto w := by
  rw [LexemeKind.extendedBy_eq, isDigit_first h, equals_first b t, runsInto, h]

/-- The lexeme that a word is read as, somewhere. -/
def Reads (w : Word) (l : Lexeme) : Prop :=
  l = .spelled w.kind w.text l.loc

/-- The word is no number that is too large, if numbers are checked. -/
def Fits (checked : Bool) (w : Word) : Prop :=
  checked = true → w.kind = .number → Decimal.value w.text < UInt64.size

theorem runes_append (w : Word) (t : Text) : (w.text ++ t).runes = w.text.ascii ++ t.runes :=
  Text.runes_append_of_isAscii w.spells.isAscii t

end Word

theorem Rune.ne_replacement_of_isBlank {r : Rune} (h : isBlank r.char = true) :
    r.char ≠ Rune.replacement := by
  intro hreplacement
  rw [hreplacement] at h
  cases h

theorem Blanks.runes_append (s : Blanks) (t : Text) :
    (s.text ++ t).runes = s.text.runes ++ t.runes := by
  apply Text.runes_append
  intro r hr
  exact Rune.ne_replacement_of_isBlank (s.blank r hr)

namespace Lexer

theorem yields_blanks {checked : Bool} {blanks : List Rune}
    (hblanks : ∀ r ∈ blanks, isBlank r.char = true) (rest : List Rune) (loc : Location) :
    Yields checked ⟨blanks ++ rest, loc⟩ [] ⟨rest, loc.past blanks⟩ := by
  have hskip : skipBlanks ⟨blanks ++ rest, loc⟩ = skipBlanks ⟨rest, loc.past blanks⟩ := by
    simp [skipBlanks, List.dropWhile_append_of_pos hblanks,
      List.takeWhile_append_of_pos hblanks, Location.past]
  have hnext : next checked ⟨blanks ++ rest, loc⟩ = next checked ⟨rest, loc.past blanks⟩ := by
    rw [next, hskip, next]
  rw [Yields, lexemes_congr hnext]
  cases lexemes checked ⟨rest, loc.past blanks⟩ <;> rfl

end Lexer

/-- The runes are words with blanks around them, and with `rest` after them no word
goes on beyond its end. -/
inductive Spaced (rest : List Rune) : List Rune → List Word → Prop
  | blanks {rs : List Rune} (hblanks : ∀ r ∈ rs, isBlank r.char = true) : Spaced rest rs []
  | word {blanks rs : List Rune} {w : Word} {ws : List Word}
      (hblanks : ∀ r ∈ blanks, isBlank r.char = true)
      (hends : ∀ r ∈ (rs ++ rest).head?, w.kind.extendedBy r = false)
      (hrest : Spaced rest rs ws) : Spaced rest (blanks ++ (w.text.ascii ++ rs)) (w :: ws)

/-- The lexer finds the words, one call for each, and goes on at what follows. -/
theorem Spaced.yields {checked : Bool} {rest rs : List Rune} {ws : List Word}
    (h : Spaced rest rs ws) (hfits : ∀ w ∈ ws, w.Fits checked) (loc : Location) :
    ∃ ls, List.Forall₂ Word.Reads ws ls ∧
      Lexer.Yields checked ⟨rs ++ rest, loc⟩ ls ⟨rest, loc.past rs⟩ := by
  induction h generalizing loc with
  | blanks hblanks => exact ⟨[], .nil, Lexer.yields_blanks hblanks rest loc⟩
  | @word blanks rs w ws hblanks hends _ ih =>
      have hfirst := Lexer.yields_spelled hblanks w.spells loc (rs ++ rest) hends
        (hfits w List.mem_cons_self)
      obtain ⟨ls, hreads, hyields⟩ := ih (fun w' hw' => hfits w' (List.mem_cons_of_mem w hw'))
        ((loc.past blanks).past w.text.ascii)
      refine ⟨.spelled w.kind w.text (loc.past blanks) :: ls, .cons rfl hreads, ?_⟩
      have htrans := hfirst.trans hyields
      simpa [Location.past] using htrans

theorem Spaced.lexemes_eq {checked : Bool} {rs : List Rune} {ws : List Word}
    (h : Spaced [] rs ws) (hfits : ∀ w ∈ ws, w.Fits checked) (loc : Location) :
    ∃ ls, List.Forall₂ Word.Reads ws ls ∧
      Lexer.lexemes checked ⟨rs, loc⟩ = .ok (ls ++ [.eofAt (loc.past rs)]) := by
  obtain ⟨ls, hreads, hyields⟩ := h.yields hfits loc
  rw [List.append_nil] at hyields
  exact ⟨ls, hreads, hyields.lexemes_eq⟩

/-- A source: blanks, and then words with blanks after each of them. Only where a
word would run into the next one it takes a blank to separate them. -/
structure Layout where
  lead : Blanks
  words : List (Word × Blanks)
  separated : words.IsChain fun a b => a.1.runsInto b.1 = true → a.2.text ≠ []

namespace Layout

def wordsText (words : List (Word × Blanks)) : Text :=
  words.flatMap fun w => w.1.text ++ w.2.text

def text (l : Layout) : Text :=
  l.lead.text ++ wordsText l.words

/-- What follows a word in a layout does not go on with it: a blank, the end, or a
word that it does not run into. -/
theorem word_ends {w : Word} {s : Blanks} {words : List (Word × Blanks)}
    (h : ((w, s) :: words).IsChain fun a b => a.1.runsInto b.1 = true → a.2.text ≠ []) :
    ∀ r ∈ (s.text ++ wordsText words).runes.head?, w.kind.extendedBy r = false := by
  intro r hr
  rw [s.runes_append] at hr
  by_cases hs : s.text = []
  · rw [hs, Text.runes_nil, List.nil_append] at hr
    cases words with
    | nil => simp [wordsText] at hr
    | cons next words =>
        have hapart : w.runsInto next.1 = false := by
          rw [← Bool.not_eq_true]
          exact fun hruns => (List.isChain_cons_cons.mp h).1 hruns hs
        obtain ⟨b, t, ht⟩ := List.exists_cons_of_ne_nil next.1.spells.ne_nil
        rw [wordsText, List.flatMap_cons, List.append_assoc, next.1.runes_append, ht] at hr
        obtain rfl := Option.some.inj hr
        rw [w.extendedBy_first ht, hapart]
  · have hne : s.text.runes ≠ [] := by
      intro hnil
      have hbytes := Text.ofRunes_runes s.text
      rw [hnil] at hbytes
      exact hs hbytes.symm
    obtain ⟨first, rest, hrunes⟩ := List.exists_cons_of_ne_nil hne
    rw [hrunes] at hr
    obtain rfl := Option.some.inj hr
    apply LexemeKind.extendedBy_of_isBlank
    exact s.blank _ (by simp [hrunes])

theorem spaced_words {words : List (Word × Blanks)}
    (h : words.IsChain fun a b => a.1.runsInto b.1 = true → a.2.text ≠ []) (lead : Blanks) :
    Spaced [] (lead.text ++ wordsText words).runes (words.map Prod.fst) := by
  induction words generalizing lead with
  | nil =>
      rw [lead.runes_append, wordsText, List.flatMap_nil, Text.runes_nil, List.append_nil]
      exact .blanks lead.blank
  | cons word words ih =>
      obtain ⟨w, s⟩ := word
      have hrest := ih h.of_cons s
      rw [lead.runes_append, wordsText, List.flatMap_cons, List.append_assoc, w.runes_append]
      refine .word lead.blank ?_ hrest
      rw [List.append_nil]
      exact word_ends h

theorem spaced (l : Layout) : Spaced [] l.text.runes (l.words.map Prod.fst) :=
  spaced_words l.separated l.lead

theorem tokenize_text {checked : Bool} (l : Layout)
    (hfits : ∀ w ∈ l.words.map Prod.fst, w.Fits checked) :
    ∃ ls loc, tokenize checked l.text = .ok (ls ++ [.eofAt loc]) ∧
      List.Forall₂ Word.Reads (l.words.map Prod.fst) ls := by
  obtain ⟨ls, hreads, hlexemes⟩ := l.spaced.lexemes_eq hfits .start
  exact ⟨ls, _, hlexemes, hreads⟩

end Layout

namespace Word

theorem fits_unchecked (w : Word) : w.Fits false := by
  intro hchecked
  cases hchecked

theorem Reads.value_eq {w : Word} {l : Lexeme} (h : w.Reads l) (hw : w.kind = .number) :
    l.value.toNat = Decimal.value w.text % UInt64.size := by
  rw [h, Lexeme.spelled, if_pos hw]
  exact UInt64.toNat_ofNat'

/-- Up to their locations, the lexemes are told by the words. -/
theorem map_unlocated_of_reads {ws : List Word} {ls : List Lexeme}
    (h : List.Forall₂ Reads ws ls) :
    ls.map Lexeme.unlocated = ws.map fun w => .spelled w.kind w.text .start := by
  induction h with
  | nil => rfl
  | @cons w l ws ls hreads _ ih =>
      rw [List.map_cons, List.map_cons, ih, hreads]
      rfl

end Word

/-- Up to locations, the parser cannot tell lexemes of the same words apart. -/
theorem readExpr_of_reads {allowTrailing checked : Bool} {source source' : Text}
    {ls ls' : List Lexeme} {e : Expr} (hls : tokenize checked source = .ok ls)
    (hls' : tokenize checked source' = .ok ls')
    (hsame : ls.map Lexeme.unlocated = ls'.map Lexeme.unlocated)
    (he : readExpr ⟨allowTrailing, checked⟩ source = .ok e) :
    ∃ e', readExpr ⟨allowTrailing, checked⟩ source' = .ok e' ∧ e'.unlocated = e.unlocated := by
  simp only [readExpr, readLexemes, readLexemeList, hls, hls', Result.mapError_ok,
    Result.ok_bind, Result.mapError_eq_ok_iff] at he ⊢
  have hanswer := unlocatedAnswer_parse hsame allowTrailing
  rw [he] at hanswer
  cases hparse : parse allowTrailing ls' with
  | error err =>
      rw [hparse] at hanswer
      cases hanswer
  | ok e' =>
      rw [hparse] at hanswer
      exact ⟨e', rfl, (Except.ok.inj hanswer).symm⟩

/-- The lexer finds the words of every layout: one lexeme for each, in order, with
its kind and its text, numbers with their values modulo 2^64, and then the end. So
another layout of the same words is read as the same expression up to locations. -/
theorem layout_recovered :
    (∀ l : Layout, ∃ ls loc, tokenize false l.text = .ok (ls ++ [.eofAt loc]) ∧
      List.Forall₂ (fun (w : Word) (lexeme : Lexeme) =>
        lexeme.kind = w.kind ∧ lexeme.text = w.text ∧
          (w.kind = .number → lexeme.value.toNat = Decimal.value w.text % UInt64.size))
        (l.words.map Prod.fst) ls) ∧
    ∀ (l l' : Layout) (allowTrailing : Bool) (e : Expr),
      l.words.map Prod.fst = l'.words.map Prod.fst →
      readExpr ⟨allowTrailing, false⟩ l.text = .ok e →
      ∃ e', readExpr ⟨allowTrailing, false⟩ l'.text = .ok e' ∧ e'.unlocated = e.unlocated := by
  have hfound : ∀ l : Layout, ∃ ls loc, tokenize false l.text = .ok (ls ++ [.eofAt loc]) ∧
      List.Forall₂ Word.Reads (l.words.map Prod.fst) ls :=
    fun l => l.tokenize_text fun w _ => w.fits_unchecked
  constructor
  · intro l
    obtain ⟨ls, loc, htokenize, hreads⟩ := hfound l
    refine ⟨ls, loc, htokenize, hreads.imp ?_⟩
    intro w lexeme hw
    exact ⟨congrArg Lexeme.kind hw, congrArg Lexeme.text hw, hw.value_eq⟩
  · intro l l' allowTrailing e hwords he
    obtain ⟨ls, loc, htokenize, hreads⟩ := hfound l
    obtain ⟨ls', loc', htokenize', hreads'⟩ := hfound l'
    apply readExpr_of_reads htokenize htokenize' ?_ he
    rw [List.map_append, List.map_append, Word.map_unlocated_of_reads hreads,
      Word.map_unlocated_of_reads hreads', hwords]
    rfl

/-- `8 <= - 1` as words. -/
def comparisonWords : List Word := [
  ⟨.number, "8", by decide, List.all_eq_true.mp rfl⟩, ⟨.le, "<=", "<=", rfl, rfl⟩,
  ⟨.minus, "-", "-", rfl, rfl⟩, ⟨.number, "1", by decide, List.all_eq_true.mp rfl⟩]

def noBlanks : Blanks :=
  ⟨[], by simp [Text.IsBlank]⟩

/-- A line break and a blank of two bytes. -/
def wideBlanks : Blanks :=
  ⟨"\n\u00a0", List.all_eq_true.mp (by decide +kernel)⟩

/-- The words with the same blanks before, between and after them. -/
def comparisonLayout (blanks : Blanks) : Layout :=
  ⟨blanks, comparisonWords.map (·, blanks), by simp [comparisonWords, Word.runsInto]⟩

theorem comparisonLayout_recovered :
    (comparisonLayout noBlanks).text = "8<=-1" ∧
      (comparisonLayout wideBlanks).text =
        "\n\u00a08\n\u00a0<=\n\u00a0-\n\u00a01\n\u00a0" ∧
      ∃ e e', readExpr ⟨false, false⟩ (comparisonLayout noBlanks).text = .ok e ∧
        readExpr ⟨false, false⟩ (comparisonLayout wideBlanks).text = .ok e' ∧
        e'.unlocated = e.unlocated := by
  have hcompact : ∃ e, readExpr ⟨false, false⟩ (comparisonLayout noBlanks).text = .ok e :=
    ⟨_, by with_unfolding_all rfl⟩
  obtain ⟨e, he⟩ := hcompact
  obtain ⟨_, hsame⟩ := layout_recovered
  obtain ⟨e', he', hunlocated⟩ :=
    hsame (comparisonLayout noBlanks) (comparisonLayout wideBlanks) false e rfl he
  exact ⟨rfl, rfl, e, e', he, he', hunlocated⟩

end ArithAsm
