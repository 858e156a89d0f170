import ArithAsm.ShellWords
import ArithAsm.Proofs.Result

/-!
The words of a command line, said without a reader: words are made of pieces, and
what separates them is not. Splitting gives the words of a text exactly if it has words
in this sense, so anything that splits soundly agrees with it. Of the words, the first
is empty exactly if the text opens with quotes that have nothing between them.
-/

namespace ArithAsm.ShellWords

/-- A text between double quotes, and what it stands for. -/
inductive Quoted : Text → Text → Prop where
  | done : Quoted [] []
  | plain {b : UInt8} {t u : Text} : b ≠ 34 → b ≠ 92 → Quoted t u → Quoted (b :: t) (b :: u)
  | newline {t u : Text} : Quoted t u → Quoted (92 :: 10 :: t) u
  | escaped {b : UInt8} {t u : Text} : isEscapable b = true → b ≠ 10 → Quoted t u →
      Quoted (92 :: b :: t) (b :: u)
  | backslash {b : UInt8} {t u : Text} : isEscapable b = false → Quoted t u →
      Quoted (92 :: b :: t) (92 :: b :: u)

/-- A byte that stands for itself without quotes. -/
def isBare (b : UInt8) : Bool :=
  !isSeparator b && b != 92 && b != 39 && b != 34

/-- A piece of a word, and what it stands for. -/
inductive Piece : Text → Text → Prop where
  | bare {b : UInt8} : isBare b = true → Piece [b] [b]
  | newline : Piece [92, 10] []
  | escaped {b : UInt8} : b ≠ 10 → Piece [92, b] [b]
  | single {t : Text} : 39 ∉ t → Piece (39 :: (t ++ [39])) t
  | double {t u : Text} : Quoted t u → Piece (34 :: (t ++ [34])) u

inductive Pieces : Text → Text → Prop where
  | done : Pieces [] []
  | piece {p v t u : Text} : Piece p v → Pieces t u → Pieces (p ++ t) (v ++ u)

/-- A word starts with any piece but an escaped newline. -/
inductive Word : Text → Text → Prop where
  | start {p v t u : Text} : Piece p v → p ≠ [92, 10] → Pieces t u → Word (p ++ t) (v ++ u)

/-- A text and its words. Between words there are separators and escaped newlines. -/
inductive Splits : Text → List Text → Prop where
  | done : Splits [] []
  | separator {b : UInt8} {t : Text} {words : List Text} :
      isSeparator b = true → Splits t words → Splits (b :: t) words
  | newline {t : Text} {words : List Text} : Splits t words → Splits (92 :: 10 :: t) words
  | last {t w : Text} : Word t w → Splits t [w]
  | word {t w u : Text} {b : UInt8} {words : List Text} : Word t w → isSeparator b = true →
      Splits u words → Splits (t ++ b :: u) (w :: words)

/-- Whatever a function accepts it splits into its words. -/
def Sound (split : Text → Except Error (List Text)) : Prop :=
  ∀ t words, split t = .ok words → Splits t words

theorem isBare_iff {b : UInt8} :
    isBare b = true ↔ isSeparator b = false ∧ b ≠ 92 ∧ b ≠ 39 ∧ b ≠ 34 := by
  simp [isBare, and_assoc]

theorem isSeparator_cases {b : UInt8} (h : isSeparator b = true) : b = 32 ∨ b = 9 ∨ b = 10 := by
  simpa [isSeparator, or_assoc] using h

theorem read_bare_separator {b : UInt8} (h : isSeparator b = true) (word t : Text) :
    read .bare word (b :: t) = (read .between [] t).map (word :: ·) := by
  rcases isSeparator_cases h with rfl | rfl | rfl <;> rfl

theorem read_between_separator {b : UInt8} (h : isSeparator b = true) (word t : Text) :
    read .between word (b :: t) = read .between [] t := by
  rcases isSeparator_cases h with rfl | rfl | rfl <;> rfl

section Complete

variable (word rest : Text)

theorem read_single {t : Text} (h : 39 ∉ t) :
    read .single word (t ++ 39 :: rest) = read .bare (word ++ t) rest := by
  induction t generalizing word with
  | nil => simp [read]
  | cons b t ih =>
      obtain ⟨hb, ht⟩ : 39 ≠ b ∧ 39 ∉ t := by simpa using h
      simp [read, Ne.symm hb, ih _ ht]

theorem Quoted.read_double {t u : Text} (h : Quoted t u) :
    read .double word (t ++ 34 :: rest) = read .bare (word ++ u) rest := by
  induction h generalizing word with
  | done => simp [read]
  | plain hquote hescape _ ih => simp [read, hquote, ih]
  | newline _ ih => simpa [read, isEscapable, appendEscaped] using ih word
  | escaped hescapable hb _ ih => simp [read, hescapable, appendEscaped, hb, ih]
  | backslash hescapable _ ih => simp [read, hescapable, ih]

/-- Inside a word a piece adds what it stands for. -/
theorem Piece.read_bare {p v : Text} (h : Piece p v) :
    read .bare word (p ++ rest) = read .bare (word ++ v) rest := by
  cases h with
  | bare hb =>
      obtain ⟨hseparator, _, hsingle, hdouble⟩ := isBare_iff.mp hb
      simp [read, hseparator, hsingle, hdouble]
  | newline => simp [read, appendEscaped]
  | escaped hb => simp [read, appendEscaped, hb]
  | single ht => simpa [read, isSeparator] using read_single word rest ht
  | double ht => simpa [read, isSeparator] using ht.read_double word rest

/-- Any piece but an escaped newline starts a word in the same way in which it goes on
with one. -/
theorem Piece.read_between {p v : Text} (h : Piece p v) (hp : p ≠ [92, 10]) :
    read .between word (p ++ rest) = read .bare [] (p ++ rest) := by
  cases h with
  | bare hb =>
      obtain ⟨hseparator, _, hsingle, hdouble⟩ := isBare_iff.mp hb
      simp [read, hseparator, hsingle, hdouble]
  | newline => exact absurd rfl hp
  | escaped hb => simp [read, appendEscaped, hb]
  | single | double => rfl

theorem Pieces.read_bare {t u : Text} (h : Pieces t u) :
    read .bare word (t ++ rest) = read .bare (word ++ u) rest := by
  induction h generalizing word with
  | done => simp
  | piece hpiece _ ih => rw [List.append_assoc, hpiece.read_bare, ih, List.append_assoc]

theorem Word.read_between {t w : Text} (h : Word t w) :
    read .between word (t ++ rest) = read .bare w rest := by
  cases h with
  | start hpiece hp hpieces =>
      rw [List.append_assoc, hpiece.read_between _ _ hp, hpiece.read_bare, hpieces.read_bare]
      rfl

theorem Splits.split_eq {t : Text} {words : List Text} (h : Splits t words) :
    split t = .ok words := by
  unfold split
  induction h with
  | done => rfl
  | separator hb _ ih => rw [read_between_separator hb, ih]
  | newline _ ih => exact ih
  | last hword =>
      have hread := hword.read_between [] []
      rw [List.append_nil] at hread
      exact hread
  | word hword hb _ ih =>
      rw [hword.read_between, read_bare_separator hb, ih]
      rfl

end Complete

/-- What a reader inside a word still has before it, with `word` as the part that it has
read. -/
inductive Continues (word : Text) : Text → List Text → Prop where
  | last {t u : Text} : Pieces t u → Continues word t [word ++ u]
  | separator {t u rest : Text} {b : UInt8} {words : List Text} : Pieces t u →
      isSeparator b = true → Splits rest words →
      Continues word (t ++ b :: rest) ((word ++ u) :: words)

theorem Continues.piece {word p v t : Text} {words : List Text} (hpiece : Piece p v)
    (h : Continues (word ++ v) t words) : Continues word (p ++ t) words := by
  cases h with
  | last hpieces =>
      rw [List.append_assoc]
      exact .last (.piece hpiece hpieces)
  | separator hpieces hb hsplits =>
      rw [List.append_assoc, ← List.append_assoc p]
      exact .separator (.piece hpiece hpieces) hb hsplits

theorem Continues.splits {p v t : Text} {words : List Text} (hpiece : Piece p v)
    (hp : p ≠ [92, 10]) (h : Continues v t words) : Splits (p ++ t) words := by
  cases h with
  | last hpieces => exact .last (.start hpiece hp hpieces)
  | separator hpieces hb hsplits =>
      rw [← List.append_assoc p]
      exact .word (.start hpiece hp hpieces) hb hsplits

/-- What a text has to be for words to be read from it, with `word` as the part of the
current word that has been read. -/
def Readable : Mode → Text → Text → List Text → Prop
  | .between, _, t, words => Splits t words
  | .bare, word, t, words => Continues word t words
  | .single, word, t, words =>
      ∃ q rest, t = q ++ 39 :: rest ∧ 39 ∉ q ∧ Continues (word ++ q) rest words
  | .double, word, t, words =>
      ∃ q u rest, t = q ++ 34 :: rest ∧ Quoted q u ∧ Continues (word ++ u) rest words

theorem readable_of_read {mode : Mode} {word t : Text} {words : List Text}
    (h : read mode word t = .ok words) : Readable mode word t words := by
  fun_induction read mode word t generalizing words with
  | case1 =>
      obtain rfl := Except.ok.inj h
      exact .done
  | case2 word =>
      obtain rfl := Except.ok.inj h
      simpa [Readable] using Continues.last .done
  | case3 | case4 | case7 | case12 | case15 => cases h
  | case5 word rest ih => exact ⟨[], rest, rfl, by simp, by simpa [Readable] using ih h⟩
  | case6 word b rest hb ih =>
      obtain ⟨q, u, rfl, hq, hu⟩ := ih h
      exact ⟨b :: q, u, rfl, by simp [hq, Ne.symm hb], by simpa using hu⟩
  | case8 word b rest hb ih =>
      obtain ⟨q, u, rest', rfl, hq, hu⟩ := ih h
      unfold appendEscaped at hu
      split at hu
      · rename_i hnewline
        subst hnewline
        exact ⟨92 :: 10 :: q, u, rest', rfl, .newline hq, hu⟩
      · rename_i hnewline
        exact ⟨92 :: b :: q, b :: u, rest', rfl, .escaped hb hnewline hq, by simpa using hu⟩
  | case9 word b rest hb ih =>
      obtain ⟨q, u, rest', rfl, hq, hu⟩ := ih h
      exact ⟨92 :: b :: q, 92 :: b :: u, rest', rfl, .backslash (by simpa using hb) hq,
        by simpa using hu⟩
  | case10 word rest _ ih => exact ⟨[], [], rest, rfl, .done, by simpa [Readable] using ih h⟩
  | case11 word b rest hescape hb ih =>
      obtain ⟨q, u, rest', rfl, hq, hu⟩ := ih h
      exact ⟨b :: q, b :: u, rest', rfl, .plain hb (by simpa using hescape) hq, by simpa using hu⟩
  | case13 _ rest ih => exact .newline (ih h)
  | case14 _ b rest hb ih =>
      exact (ih h).splits (.escaped hb) (by simpa using hb)
  | case16 word b rest ih =>
      have hrest := ih h
      unfold appendEscaped at hrest
      split at hrest
      · rename_i hnewline
        subst hnewline
        exact Continues.piece .newline (by simpa [Readable] using hrest)
      · rename_i hnewline
        exact Continues.piece (.escaped hnewline) hrest
  | case17 _ b rest _ hb ih => exact .separator hb (ih h)
  | case18 _ rest _ _ ih =>
      obtain ⟨q, u, rfl, hq, hu⟩ := ih h
      simpa [Readable] using hu.splits (.single hq) (by simp)
  | case19 _ rest _ _ _ ih =>
      obtain ⟨q, u, rest', rfl, hq, hu⟩ := ih h
      simpa [Readable] using hu.splits (.double hq) (by simp)
  | case20 _ b rest hescape hb hsingle hdouble ih =>
      have hbare : isBare b = true := by simp_all [isBare_iff]
      exact (ih h).splits (.bare hbare) (by simp)
  | case21 word b rest _ hb ih =>
      obtain ⟨others, hothers, rfl⟩ := Result.map_eq_ok_iff.mp h
      simpa [Readable] using Continues.separator .done hb (ih hothers)
  | case22 word rest _ _ ih =>
      obtain ⟨q, u, rfl, hq, hu⟩ := ih h
      simpa [Readable] using hu.piece (.single hq)
  | case23 word rest _ _ _ ih =>
      obtain ⟨q, u, rest', rfl, hq, hu⟩ := ih h
      simpa [Readable] using hu.piece (.double hq)
  | case24 word b rest hescape hb hsingle hdouble ih =>
      have hbare : isBare b = true := by simp_all [isBare_iff]
      exact Continues.piece (.bare hbare) (ih h)

/-- Splitting accepts the texts that have words, and gives their words. -/
theorem split_eq_ok_iff {t : Text} {words : List Text} : split t = .ok words ↔ Splits t words :=
  ⟨readable_of_read, Splits.split_eq⟩

theorem sound_split : Sound split :=
  fun _ _ => split_eq_ok_iff.mp

def escapedNewlines (n : Nat) : Text :=
  (List.replicate n [92, 10]).flatten

@[simp] theorem escapedNewlines_zero : escapedNewlines 0 = [] := rfl

@[simp] theorem escapedNewlines_succ (n : Nat) :
    escapedNewlines (n + 1) = 92 :: 10 :: escapedNewlines n := rfl

/-- Read inside a word, the text brings the word to its end and adds nothing to
it: all it has are empty quotes and escaped newlines. -/
inductive Hollow : Text → Prop where
  | done : Hollow []
  | separator {b : UInt8} {t : Text} : isSeparator b = true → Hollow (b :: t)
  | newline {t : Text} : Hollow t → Hollow (92 :: 10 :: t)
  | single {t : Text} : Hollow t → Hollow (39 :: 39 :: t)
  | double {t : Text} (n : Nat) : Hollow t → Hollow (34 :: (escapedNewlines n ++ 34 :: t))

/-- The text has a first word, and that word is empty. It takes quotes to write
one. -/
inductive OpensEmpty : Text → Prop where
  | separator {b : UInt8} {t : Text} : isSeparator b = true → OpensEmpty t → OpensEmpty (b :: t)
  | newline {t : Text} : OpensEmpty t → OpensEmpty (92 :: 10 :: t)
  | quoted {b : UInt8} {t : Text} : b = 39 ∨ b = 34 → Hollow (b :: t) → OpensEmpty (b :: t)

/-- What a text has to be for the first word read from it to be empty, with `word`
as the part that has been read. -/
def EndsEmpty : Mode → Text → Text → Prop
  | .between, _, t => OpensEmpty t
  | .bare, word, t => word = [] ∧ Hollow t
  | .single, word, t => word = [] ∧ ∃ rest, t = 39 :: rest ∧ Hollow rest
  | .double, word, t => word = [] ∧ ∃ n rest, t = escapedNewlines n ++ 34 :: rest ∧ Hollow rest

theorem appendEscaped_eq_nil_iff {word : Text} {b : UInt8} :
    appendEscaped word b = [] ↔ word = [] ∧ b = 10 := by
  unfold appendEscaped
  split <;> simp_all

/-- A word that has been added to is not empty any more. -/
theorem not_endsEmpty {mode : Mode} {word t : Text} (hmode : mode ≠ .between) (hword : word ≠ []) :
    ¬ EndsEmpty mode word t := by
  cases mode <;> simp_all [EndsEmpty]

theorem endsEmpty_of_read {mode : Mode} {word t : Text} {words : List Text}
    (h : read mode word t = .ok words) (hempty : words.head? = some []) :
    EndsEmpty mode word t := by
  fun_induction read mode word t generalizing words with
  | case1 =>
      obtain rfl := Except.ok.inj h
      cases hempty
  | case2 word =>
      obtain rfl := Except.ok.inj h
      exact ⟨Option.some.inj hempty, .done⟩
  | case3 | case4 | case7 | case12 | case15 => cases h
  | case5 word rest ih =>
      obtain ⟨hword, hrest⟩ := ih h hempty
      exact ⟨hword, rest, rfl, hrest⟩
  | case8 word b rest _ ih =>
      obtain ⟨hword, n, u, rfl, hu⟩ := ih h hempty
      obtain ⟨rfl, rfl⟩ := appendEscaped_eq_nil_iff.mp hword
      exact ⟨rfl, n + 1, u, rfl, hu⟩
  | case10 word rest _ ih =>
      obtain ⟨hword, hrest⟩ := ih h hempty
      exact ⟨hword, 0, rest, rfl, hrest⟩
  | case13 _ rest ih => exact .newline (ih h hempty)
  | case16 word b rest ih =>
      obtain ⟨hword, hrest⟩ := ih h hempty
      obtain ⟨rfl, rfl⟩ := appendEscaped_eq_nil_iff.mp hword
      exact ⟨rfl, .newline hrest⟩
  | case17 _ b rest _ hb ih => exact .separator hb (ih h hempty)
  | case18 _ rest _ _ ih =>
      obtain ⟨_, u, rfl, hu⟩ := ih h hempty
      exact .quoted (.inl rfl) (.single hu)
  | case19 _ rest _ _ _ ih =>
      obtain ⟨_, n, u, rfl, hu⟩ := ih h hempty
      exact .quoted (.inr rfl) (.double n hu)
  | case21 word b rest _ hb _ =>
      obtain ⟨others, _, rfl⟩ := Result.map_eq_ok_iff.mp h
      exact ⟨Option.some.inj hempty, .separator hb⟩
  | case22 word rest _ _ ih =>
      obtain ⟨hword, u, rfl, hu⟩ := ih h hempty
      exact ⟨hword, .single hu⟩
  | case23 word rest _ _ _ ih =>
      obtain ⟨hword, n, u, rfl, hu⟩ := ih h hempty
      exact ⟨hword, .double n hu⟩
  | case6 | case9 | case11 | case14 | case20 | case24 =>
      rename_i ih
      exact absurd (ih h hempty) (not_endsEmpty (by simp) (by simp))

/-- Inside double quotes escaped newlines leave no trace. -/
theorem read_escapedNewlines (n : Nat) (word t : Text) :
    read .double word (escapedNewlines n ++ t) = read .double word t := by
  induction n with
  | zero => rfl
  | succ n ih => simpa [read, isEscapable, appendEscaped] using ih

theorem Hollow.head?_eq {t : Text} (h : Hollow t) {words : List Text}
    (hread : read .bare [] t = .ok words) : words.head? = some [] := by
  induction h with
  | done =>
      obtain rfl := Except.ok.inj hread
      rfl
  | separator hb =>
      rw [read_bare_separator hb] at hread
      obtain ⟨others, _, rfl⟩ := Result.map_eq_ok_iff.mp hread
      rfl
  | newline _ ih => exact ih hread
  | single _ ih => exact ih hread
  | @double t n _ ih =>
      have hquotes : read .bare [] (34 :: (escapedNewlines n ++ 34 :: t)) = read .bare [] t :=
        read_escapedNewlines n [] (34 :: t)
      rw [hquotes] at hread
      exact ih hread

theorem OpensEmpty.head?_eq {t word : Text} (h : OpensEmpty t) {words : List Text}
    (hread : read .between word t = .ok words) : words.head? = some [] := by
  induction h generalizing word with
  | separator hb _ ih =>
      rw [read_between_separator hb] at hread
      exact ih hread
  | newline _ ih => exact ih hread
  | quoted hb hhollow =>
      -- a quote starts a word in the same way in which it goes on with one
      rcases hb with rfl | rfl
      · exact hhollow.head?_eq hread
      · exact hhollow.head?_eq hread

/-- The first of the words of a text is empty exactly if the text opens with a
quoted word that has nothing in it. -/
theorem head?_split_eq_nil_iff {t : Text} {words : List Text} (h : split t = .ok words) :
    words.head? = some [] ↔ OpensEmpty t :=
  ⟨endsEmpty_of_read h, fun hopens => hopens.head?_eq h⟩

theorem Splits.head?_eq_nil_iff {t : Text} {words : List Text} (h : Splits t words) :
    words.head? = some [] ↔ OpensEmpty t :=
  head?_split_eq_nil_iff h.split_eq

end ArithAsm.ShellWords
