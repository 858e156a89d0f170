import ArithAsm.Proofs.Evaluation
import ArithAsm.Proofs.LexicalErrors

/-!
Signs in front of an operand. However many there are and whatever blanks stand
between them, the operand stays an operand, and only the number of minus signs counts:
an even number of them does nothing, an odd number negates. Signs neither cause nor
hide a failure.
-/

namespace ArithAsm

namespace Text

/-- Nothing but signs and blanks, read as runes. -/
def IsSigns (t : Text) : Prop :=
  ∀ r ∈ t.runes, r.char = '+' ∨ r.char = '-' ∨ isBlank r.char = true

def minusCount (t : Text) : Nat :=
  t.runes.countP (·.char = '-')

/-- Read as a single number or as an expression in parentheses. -/
def IsPrimary (checked : Bool) (t : Text) : Prop :=
  ∃ ls loc e, tokenize checked t = .ok (ls ++ [.eofAt loc]) ∧ Derives .primary ls e

end Text

namespace Expr

open ArithAsm.Parser (negated)

/-- The value of an expression or the cause of its failure does not depend on
locations. -/
theorem eval_unlocated (e : Expr) :
    (eval e.unlocated).mapError (·.cause) = (eval e).mapError (·.cause) := by
  induction e with
  | number loc n => rfl
  | binary loc op l r ihl ihr =>
      simp only [Tree.unlocated, eval, Result.mapError_bind, ihl, ihr, Result.mapError_mapError]
      rfl

theorem eval_negated_ok {e : Expr} {v : Int64} (h : eval e = .ok v) (loc : Location) :
    eval (negated loc e) = .ok (-v) := by
  apply eval_binary_eq_ok_iff.mpr
  refine ⟨0, v, rfl, h, ?_⟩
  rw [← Int64.zero_sub]
  rfl

theorem eval_negated_error {e : Expr} {err : EvalError} (h : eval e = .error err)
    (loc : Location) : eval (negated loc e) = .error err :=
  eval_binary_eq_error_iff.mpr (.inr (.inl ⟨0, rfl, h⟩))

/-- The expression with signs in front of it, the outermost first. -/
def signed : List Lexeme → Expr → Expr
  | [], e => e
  | l :: signs, e => if l.kind = .minus then negated l.loc (signed signs e) else signed signs e

/-- Two minus signs cancel each other, also around the word that is its own
negation. -/
theorem eval_signed_ok {e : Expr} {v : Int64} (h : eval e = .ok v) (signs : List Lexeme) :
    eval (signed signs e) =
      .ok (if signs.countP (·.kind = .minus) % 2 = 0 then v else -v) := by
  induction signs with
  | nil => simpa [signed] using h
  | cons l signs ih =>
      by_cases hl : l.kind = .minus
      · rw [signed, if_pos hl, eval_negated_ok ih, List.countP_cons_of_pos (by simpa using hl)]
        rcases Nat.mod_two_eq_zero_or_one (signs.countP (·.kind = .minus)) with heven | hodd
        · have hnext : (signs.countP (·.kind = .minus) + 1) % 2 ≠ 0 := by omega
          rw [if_pos heven, if_neg hnext]
        · have hthis : signs.countP (·.kind = .minus) % 2 ≠ 0 := by omega
          have hnext : (signs.countP (·.kind = .minus) + 1) % 2 = 0 := by omega
          rw [if_neg hthis, if_pos hnext, Int64.neg_neg]
      · rw [signed, if_neg hl, ih, List.countP_cons_of_neg (by simpa using hl)]

theorem eval_signed_error {e : Expr} {err : EvalError} (h : eval e = .error err)
    (signs : List Lexeme) : eval (signed signs e) = .error err := by
  induction signs with
  | nil => exact h
  | cons l signs ih =>
      rw [signed]
      split
      · exact eval_negated_error ih l.loc
      · exact ih

end Expr

namespace Derives

/-- An operand with signs in front of it is an operand. -/
theorem signed {signs ls : List Lexeme} {e : Expr}
    (hsigns : ∀ l ∈ signs, l.kind = .plus ∨ l.kind = .minus) (h : Derives .unary ls e) :
    Derives .unary (signs ++ ls) (e.signed signs) := by
  induction signs with
  | nil => exact h
  | cons l signs ih =>
      have hrest := ih fun l' hl' => hsigns l' (List.mem_cons_of_mem l hl')
      rw [Expr.signed, List.cons_append]
      rcases hsigns l List.mem_cons_self with hplus | hminus
      · rw [if_neg (by simp [hplus])]
        exact .plus hplus hrest
      · rw [if_pos hminus]
        exact .minus hminus hrest

/-- Lexemes that differ in nothing but their locations spell trees that differ in
nothing else. -/
theorem relocate {p : Phrase} {ls ls' : List Lexeme} {e : Expr} (h : Derives p ls e)
    (hsame : ls'.map Lexeme.unlocated = ls.map Lexeme.unlocated) :
    ∃ e', Derives p ls' e' ∧ e'.unlocated = e.unlocated := by
  have hkind {l l' : Lexeme} (h : l'.unlocated = l.unlocated) : l'.kind = l.kind :=
    (Lexeme.mk.inj h).1
  induction h generalizing ls' with
  | @number l hl =>
      obtain ⟨l', rfl, hl'⟩ := List.map_eq_singleton_iff.mp hsame
      obtain ⟨_, _, hvalue, _⟩ := Lexeme.mk.inj hl'
      refine ⟨_, .number ((hkind hl').trans hl), ?_⟩
      rw [Tree.unlocated, Tree.unlocated, hvalue]
  | paren hl _ hr ih =>
      rw [List.map_append] at hsame
      obtain ⟨front, last, rfl, hfront, hlast⟩ := List.map_eq_append_iff.mp hsame
      obtain ⟨l', inner, rfl, hl', hinner⟩ := List.map_eq_cons_iff.mp hfront
      obtain ⟨r', rfl, hr'⟩ := List.map_eq_singleton_iff.mp hlast
      obtain ⟨e', he', hsame'⟩ := ih hinner
      exact ⟨e', .paren ((hkind hl').trans hl) he' ((hkind hr').trans hr), hsame'⟩
  | plus hl _ ih =>
      obtain ⟨l', rest, rfl, hl', hrest⟩ := List.map_eq_cons_iff.mp hsame
      obtain ⟨e', he', hsame'⟩ := ih hrest
      exact ⟨e', .plus ((hkind hl').trans hl) he', hsame'⟩
  | minus hl _ ih =>
      obtain ⟨l', rest, rfl, hl', hrest⟩ := List.map_eq_cons_iff.mp hsame
      obtain ⟨e', he', hsame'⟩ := ih hrest
      refine ⟨_, .minus ((hkind hl').trans hl) he', ?_⟩
      simp only [Tree.unlocated, hsame']
  | single hq _ ih =>
      obtain ⟨e', he', hsame'⟩ := ih hsame
      exact ⟨e', .single hq he', hsame'⟩
  | chain hq _ hop _ ihleft ihright =>
      rw [List.map_append] at hsame
      obtain ⟨front, back, rfl, hfront, hback⟩ := List.map_eq_append_iff.mp hsame
      obtain ⟨l', rest, rfl, hl', hrest⟩ := List.map_eq_cons_iff.mp hback
      obtain ⟨left', hleft', hsameleft⟩ := ihleft hfront
      obtain ⟨right', hright', hsameright⟩ := ihright hrest
      refine ⟨_, .chain hq hleft' ((hkind hl').symm ▸ hop) hright', ?_⟩
      simp only [Tree.unlocated, hsameleft, hsameright]

end Derives

theorem LexemeKind.plus_spells : plus.Spells "+" := ⟨"+", rfl, rfl⟩

theorem LexemeKind.minus_spells : minus.Spells "-" := ⟨"-", rfl, rfl⟩

/-- A sign as a word. -/
def Word.sign? (r : Rune) : Option Word :=
  if r.char = '+' then some ⟨.plus, "+", LexemeKind.plus_spells⟩
  else if r.char = '-' then some ⟨.minus, "-", LexemeKind.minus_spells⟩
  else none

theorem Word.kind_of_sign? {r : Rune} {w : Word} (h : sign? r = some w) :
    w.kind = .plus ∨ w.kind = .minus := by
  unfold sign? at h
  split at h
  · exact .inl (Option.some.inj h ▸ rfl)
  split at h
  · exact .inr (Option.some.inj h ▸ rfl)
  · cases h

theorem Word.sign?_of_isBlank {r : Rune} (h : isBlank r.char = true) : sign? r = none := by
  have hplus : r.char ≠ '+' := by
    intro hchar
    rw [hchar] at h
    cases h
  have hminus : r.char ≠ '-' := by
    intro hchar
    rw [hchar] at h
    cases h
  rw [sign?, if_neg hplus, if_neg hminus]

namespace Spaced

variable {rest rs : List Rune} {ws : List Word}

theorem blank_cons {r : Rune} (hr : isBlank r.char = true) (h : Spaced rest rs ws) :
    Spaced rest (r :: rs) ws := by
  cases h with
  | blanks hblanks => exact .blanks (List.forall_mem_cons.mpr ⟨hr, hblanks⟩)
  | @word blanks rs w ws hblanks hends hrest =>
      exact .word (List.forall_mem_cons.mpr ⟨hr, hblanks⟩) hends hrest

theorem sign_cons {r : Rune} {w : Word} (hr : Word.sign? r = some w)
    (hbytes : w.text.ascii = [r]) (h : Spaced rest rs ws) : Spaced rest (r :: rs) (w :: ws) := by
  have hends : ∀ r ∈ (rs ++ rest).head?, w.kind.extendedBy r = false := by
    intro r _
    rcases Word.kind_of_sign? hr with hkind | hkind <;> rw [hkind] <;> rfl
  have hword := Spaced.word (fun r hr => absurd hr List.not_mem_nil) hends h
  rwa [hbytes] at hword

/-- Signs and blanks in front of words are words with blanks around them. -/
theorem signs_append {signs : List Rune}
    (hsigns : ∀ r ∈ signs, r = .ofAscii 43 ∨ r = .ofAscii 45 ∨ isBlank r.char = true)
    (h : Spaced rest rs ws) : Spaced rest (signs ++ rs) (signs.filterMap Word.sign? ++ ws) := by
  induction signs with
  | nil => exact h
  | cons r signs ih =>
      obtain ⟨hr, hrest⟩ := List.forall_mem_cons.mp hsigns
      rcases hr with rfl | rfl | hblank
      · exact sign_cons rfl rfl (ih hrest)
      · exact sign_cons rfl rfl (ih hrest)
      · rw [List.filterMap_cons_none (Word.sign?_of_isBlank hblank)]
        exact blank_cons hblank (ih hrest)

end Spaced

namespace Text.IsSigns

variable {signs : Text}

theorem rune_cases (h : signs.IsSigns) :
    ∀ r ∈ signs.runes, r = .ofAscii 43 ∨ r = .ofAscii 45 ∨ isBlank r.char = true := by
  have hascii {r : Rune} {b : UInt8} (hr : r ∈ signs.runes) (hchar : r.char.toNat = b.toNat)
      (hb : b < 0x80) : r = .ofAscii b := by
    obtain ⟨c, _, hc, rfl⟩ := Rune.eq_ofAscii hr (hchar ▸ hb)
    rw [UInt8.toNat_inj.mp (hc.trans hchar)]
  intro r hr
  rcases h r hr with hplus | hminus | hblank
  · exact .inl (hascii hr (by rw [hplus]; rfl) (by decide))
  · exact .inr (.inl (hascii hr (by rw [hminus]; rfl) (by decide)))
  · exact .inr (.inr hblank)

theorem runes_append (h : signs.IsSigns) (t : Text) :
    (signs ++ t).runes = signs.runes ++ t.runes := by
  apply Text.runes_append
  intro r hr
  rcases h r hr with hplus | hminus | hblank
  · rw [hplus]
    decide
  · rw [hminus]
    decide
  · exact Rune.ne_replacement_of_isBlank hblank

end Text.IsSigns

theorem Word.countP_sign? (rs : List Rune) :
    (rs.filterMap sign?).countP (·.kind = .minus) = rs.countP (·.char = '-') := by
  rw [List.countP_filterMap]
  congr 1
  funext r
  by_cases hplus : r.char = '+'
  · simp [sign?, hplus]
  by_cases hminus : r.char = '-'
  · simp [sign?, hminus]
  · simp [sign?, hplus, hminus]

/-- The lexer finds the signs and then what it finds in the operand alone. -/
theorem Text.IsSigns.tokenize_append {checked : Bool} {signs p : Text} {ls : List Lexeme}
    {loc : Location} (hsigns : signs.IsSigns)
    (hp : tokenize checked p = .ok (ls ++ [.eofAt loc])) :
    ∃ front back loc', tokenize checked (signs ++ p) = .ok (front ++ back ++ [.eofAt loc']) ∧
      (∀ l ∈ front, l.kind = .plus ∨ l.kind = .minus) ∧
      front.countP (·.kind = .minus) = signs.minusCount ∧
      back.map Lexeme.unlocated = ls.map Lexeme.unlocated := by
  -- The words of the operand stay words with the signs in front, and read the same there.
  obtain ⟨ws, hspaced, hfits⟩ := spaced_of_ok hp
  obtain ⟨ls', hreads, hlexemes⟩ := hspaced.lexemes_eq hfits .start
  obtain ⟨rfl, _⟩ := List.append_inj' (Except.ok.inj (hlexemes.symm.trans hp)) rfl
  have hsignfits : ∀ w ∈ signs.runes.filterMap Word.sign? ++ ws, w.Fits checked := by
    intro w hw
    rcases List.mem_append.mp hw with hsign | hword
    · obtain ⟨r, _, hr⟩ := List.mem_filterMap.mp hsign
      intro _ hnumber
      rcases Word.kind_of_sign? hr with hkind | hkind <;> rw [hkind] at hnumber <;> cases hnumber
    · exact hfits w hword
  have hall := hspaced.signs_append hsigns.rune_cases
  rw [← hsigns.runes_append] at hall
  obtain ⟨all, hreadsall, htokenize⟩ := hall.lexemes_eq hsignfits .start
  have hmap := Word.map_unlocated_of_reads hreadsall
  rw [List.map_append] at hmap
  obtain ⟨front, back, rfl, hfront, hback⟩ := List.map_eq_append_iff.mp hmap
  have hkinds : front.map Lexeme.kind = (signs.runes.filterMap Word.sign?).map Word.kind := by
    have h := congrArg (List.map Lexeme.kind) hfront
    rwa [List.map_map, List.map_map] at h
  refine ⟨front, back, _, htokenize, ?_, ?_, ?_⟩
  · intro l hl
    have hkind : l.kind ∈ (signs.runes.filterMap Word.sign?).map Word.kind :=
      hkinds ▸ List.mem_map_of_mem hl
    obtain ⟨w, hw, hkind⟩ := List.mem_map.mp hkind
    obtain ⟨r, _, hr⟩ := List.mem_filterMap.mp hw
    exact hkind ▸ Word.kind_of_sign? hr
  · calc
      front.countP (·.kind = .minus) = (front.map Lexeme.kind).countP (· = .minus) := by
        rw [List.countP_map]
        rfl
      _ = ((signs.runes.filterMap Word.sign?).map Word.kind).countP (· = .minus) := by
        rw [hkinds]
      _ = (signs.runes.filterMap Word.sign?).countP (·.kind = .minus) := by
        rw [List.countP_map]
        rfl
      _ = signs.minusCount := Word.countP_sign? signs.runes
  · exact hback.trans (Word.map_unlocated_of_reads hreads).symm

theorem readExpr_of_derives {opts : ReadOptions} {source : Text} {ls : List Lexeme}
    {loc : Location} {e : Expr}
    (hls : tokenize opts.checkedNumbers source = .ok (ls ++ [.eofAt loc]))
    (h : Derives .equality ls e) : readExpr opts source = .ok e := by
  have hbefore : beforeEof (ls ++ [.eofAt loc]) = ls := by
    apply beforeEof_append h.kind_ne_eof
    simp [Lexeme.eofAt]
  have hparse := parse_whole_of_derives opts.allowTrailing (hbefore.symm ▸ h)
  rw [readExpr, readLexemes, hls, Result.mapError_ok, Result.ok_bind, readLexemeList, hparse,
    Result.mapError_ok]

/-- Signs in front of a number or of an expression in parentheses act by parity: the
text is accepted, it has the value of the operand if the number of minus signs is even
and the negated value if it is odd, and where the operand has no value, it has none
for the same reason. The most negative word is its own negation, so signs do not
change it. -/
theorem signs_act_by_parity {checked : Bool} {signs p : Text} {e : Expr}
    (hsigns : signs.IsSigns) (hprimary : p.IsPrimary checked)
    (he : readExpr ⟨false, checked⟩ p = .ok e) :
    ∃ e', readExpr ⟨false, checked⟩ (signs ++ p) = .ok e' ∧
      (∀ v, Expr.eval e = .ok v →
        Expr.eval e' = .ok (if signs.minusCount % 2 = 0 then v else -v)) ∧
      (∀ err, Expr.eval e = .error err → ∃ loc, Expr.eval e' = .error ⟨err.cause, loc⟩) ∧
      (Expr.eval e = .ok Int64.minValue → Expr.eval e' = .ok Int64.minValue) := by
  obtain ⟨ls, loc, e₀, hp, hderives⟩ := hprimary
  obtain rfl : e₀ = e := by
    have hread : readExpr ⟨false, checked⟩ p = .ok e₀ :=
      readExpr_of_derives hp (hderives.loosen (by decide))
    exact Except.ok.inj (hread.symm.trans he)
  obtain ⟨front, back, loc', htokenize, hfront, hcount, hback⟩ := hsigns.tokenize_append hp
  obtain ⟨e₁, hoperand, hsame⟩ := hderives.relocate hback
  have houtcome : (Expr.eval e₁).mapError (·.cause) = (Expr.eval e₀).mapError (·.cause) := by
    rw [← Expr.eval_unlocated e₁, hsame, Expr.eval_unlocated]
  have hvalue (v : Int64) (hv : Expr.eval e₀ = .ok v) :
      Expr.eval (e₁.signed front) = .ok (if signs.minusCount % 2 = 0 then v else -v) := by
    rw [hv, Result.mapError_ok, Result.mapError_eq_ok_iff] at houtcome
    rw [Expr.eval_signed_ok houtcome, hcount]
  have hsigned : Derives .unary (front ++ back) (e₁.signed front) :=
    .signed hfront (.single rfl hoperand)
  refine ⟨e₁.signed front, readExpr_of_derives htokenize (hsigned.loosen (by decide)),
    hvalue, ?_, ?_⟩
  · intro err herr
    rw [herr, Result.mapError_error, Result.mapError_eq_error_iff] at houtcome
    obtain ⟨err₁, herr₁, hcause⟩ := houtcome
    exact ⟨err₁.loc, hcause ▸ Expr.eval_signed_error herr₁ front⟩
  · intro hmin
    rw [hvalue _ hmin]
    split <;> rfl

/-- Three minus signs and a plus sign, with a blank of two bytes. -/
def threefoldMinus : Text := "-+\u00a0--"

def groupedSeven : Text := "(7)"

theorem eval_threefoldMinus :
    threefoldMinus.IsSigns ∧ groupedSeven.IsPrimary true ∧
      ∃ e', readExpr ⟨false, true⟩ (threefoldMinus ++ groupedSeven) = .ok e' ∧
        Expr.eval e' = .ok (-7) := by
  have hsigns : threefoldMinus.IsSigns := by
    have hall : threefoldMinus.runes.all
        (fun r => r.char = '+' || r.char = '-' || isBlank r.char) = true := by decide +kernel
    simpa [Text.IsSigns, or_assoc] using List.all_eq_true.mp hall
  have hcount : threefoldMinus.minusCount = 3 := by with_unfolding_all rfl
  have hls : tokenize true groupedSeven =
      .ok ([⟨.leftParen, "(", 0, ⟨1, 1, 0⟩⟩, ⟨.number, "7", 7, ⟨1, 2, 1⟩⟩,
        ⟨.rightParen, ")", 0, ⟨1, 3, 2⟩⟩] ++ [.eofAt ⟨1, 4, 3⟩]) := by with_unfolding_all rfl
  have hderives : Derives .primary [⟨.leftParen, "(", 0, ⟨1, 1, 0⟩⟩, ⟨.number, "7", 7, ⟨1, 2, 1⟩⟩,
      ⟨.rightParen, ")", 0, ⟨1, 3, 2⟩⟩] (.number ⟨1, 2, 1⟩ 7) :=
    .paren rfl ((Derives.number rfl).loosen (by decide)) rfl
  have hprimary : groupedSeven.IsPrimary true := ⟨_, _, _, hls, hderives⟩
  have hread : readExpr ⟨false, true⟩ groupedSeven = .ok (.number ⟨1, 2, 1⟩ 7) :=
    readExpr_of_derives hls (hderives.loosen (by decide))
  obtain ⟨e', he', hvalue, _⟩ := signs_act_by_parity hsigns hprimary hread
  refine ⟨hsigns, hprimary, e', he', ?_⟩
  rw [hvalue 7 rfl, hcount]
  rfl

end ArithAsm
