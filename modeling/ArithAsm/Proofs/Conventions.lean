import ArithAsm.Command.Run
import Mathlib.Data.List.Forall2

/-!
How options are written, and what a reader of arguments has to make of them. A
subcommand comes first, then options, and behind a pair of dashes the operands. The
reader of the command keeps to this, and nothing else about it matters to a run.
-/

namespace ArithAsm

theorem Arguments.toggle_of_not_given {a : Arguments} {name : String}
    (h : ∀ s ∈ a.settings, s.name ≠ name) : a.toggle name = false := by
  have hvalue : a.value? name = none := by
    rw [value?, List.find?_eq_none.mpr (by simpa using h)]
    rfl
  rw [toggle, hvalue]

namespace Options

/-- The arguments that give an option: a toggle by its name alone, a text behind the
name or behind the letter. -/
inductive Written (specs : List OptionSpec) : Setting → List Text → Prop where
  | toggle {s : OptionSpec} : s ∈ specs → s.kind = .toggle →
      Written specs ⟨s.name, false, .toggle true⟩ ["--" ++ s.name]
  | named {s : OptionSpec} (value : Text) : s ∈ specs → s.kind = .text →
      Written specs ⟨s.name, false, .text value⟩ ["--" ++ s.name, value]
  | lettered {s : OptionSpec} {letter : UInt8} (value : Text) : s ∈ specs →
      s.letter = some letter → s.kind = .text →
      Written specs ⟨s.name, true, .text value⟩ [[45, letter], value]

namespace Anywhere

/-- An option can be found by its name, and by its letter if it has one, and neither can
be taken for anything else. -/
@[mk_iff]
structure Identified (specs : List OptionSpec) (s : OptionSpec) : Prop where
  byName : byName? specs s.name = some s
  splitValue : splitValue s.name = (Text.ofString s.name, none)
  ne_nil : Text.ofString s.name ≠ []
  head : (Text.ofString s.name).head? ≠ some 45
  letter : ∀ letter ∈ s.letter, letter ≠ 45 ∧ byLetter? specs letter = some s

variable {specs : List OptionSpec}

theorem Identified.long_toggle {s : OptionSpec} (h : Identified specs s) (hkind : s.kind = .toggle)
    (next : Option Text) :
    long specs s.name next = .ok (⟨s.name, false, .toggle true⟩, false) := by
  simp [long, h.splitValue, h.ne_nil, h.head, h.byName, hkind, setting]
  rfl

theorem Identified.long_text {s : OptionSpec} (h : Identified specs s) (hkind : s.kind = .text)
    (value : Text) :
    long specs s.name (some value) = .ok (⟨s.name, false, .text value⟩, true) := by
  simp [long, h.splitValue, h.ne_nil, h.head, h.byName, hkind, setting]
  rfl

theorem Identified.short_text {s : OptionSpec} (h : Identified specs s) (hkind : s.kind = .text)
    {letter : UInt8} (hletter : s.letter = some letter) (value : Text) :
    short specs (some value) [letter] = .ok ([⟨s.name, true, .text value⟩], true) := by
  obtain ⟨_, hs⟩ := h.letter letter hletter
  have htest : (Text.ofString "test.").isPrefixOf [letter] = false := by
    rw [Bool.eq_false_iff, Ne, List.isPrefixOf_iff_prefix]
    intro hprefix
    have hlength : (Text.ofString "test.").length ≤ 1 := hprefix.length_le
    revert hlength
    decide
  simp only [short, htest, hs, hkind, setting]
  rfl

theorem read_name {name : Text} (h : name ≠ []) (rest : List Text) :
    read specs false ((Text.ofString "--" ++ name) :: rest) =
      (long specs name rest.head?).bind fun found =>
        (read specs found.2 rest).map (·.add found.1) := by
  cases name with
  | nil => exact absurd rfl h
  | cons b name =>
      have hdashes : Text.ofString "--" ++ b :: name = 45 :: 45 :: b :: name := rfl
      rw [hdashes, read]
      · cases long specs (b :: name) rest.head? <;> rfl
      · exact h

/-- An option that is written out is read, and the reading goes on behind it. -/
theorem read_written (hspecs : ∀ s ∈ specs, Identified specs s) {g : Setting} {args : List Text}
    (h : Written specs g args) (rest : List Text) :
    read specs false (args ++ rest) = (read specs false rest).map (·.add g) := by
  cases h with
  | toggle hs hkind =>
      have hid := hspecs _ hs
      rw [List.singleton_append, read_name hid.ne_nil, hid.long_toggle hkind]
      rfl
  | named value hs hkind =>
      have hid := hspecs _ hs
      rw [List.cons_append, List.singleton_append, read_name hid.ne_nil, List.head?_cons,
        hid.long_text hkind]
      rfl
  | @lettered s letter value hs hletter hkind =>
      have hid := hspecs _ hs
      obtain ⟨hdash, _⟩ := hid.letter letter hletter
      have hread : read specs false ([45, letter] :: value :: rest) =
          (short specs (some value) [letter]).bind fun found =>
            (read specs found.2 (value :: rest)).map fun a =>
              { a with settings := found.1 ++ a.settings } := by
        rw [read]
        · rw [List.head?_cons]
          cases short specs (some value) [letter] <;> rfl
        · exact fun h _ => hdash h
        · exact hdash
      rw [List.cons_append, List.singleton_append, hread, hid.short_text hkind hletter]
      rfl

theorem parse_written (hspecs : ∀ s ∈ specs, Identified specs s) {settings : List Setting}
    {written : List (List Text)} (h : List.Forall₂ (Written specs) settings written)
    (operands : List Text) :
    parse specs (written.flatten ++ Text.ofString "--" :: operands) = .ok ⟨settings, operands⟩ := by
  unfold parse
  induction h with
  | nil => rfl
  | cons hwritten _ ih =>
      rw [List.flatten_cons, List.append_assoc, read_written hspecs hwritten, ih]
      rfl

end Anywhere

end Options

namespace Command.Run

/-- Keeps to the convention: a subcommand, options as they are written, and operands
behind a pair of dashes are read as such, unless an option asks for help. -/
def Conventional (interpret : List Text → Except Text Request) : Prop :=
  ∀ c ∈ [Subcommand.build, .run], ∀ settings written operands,
    List.Forall₂ (Options.Written (c.specs ++ sharedSpecs ++ [helpSpec])) settings written →
    (∀ g ∈ settings, g.name ≠ "help") →
    interpret (c.name :: (written.flatten ++ ("--" : Text) :: operands)) =
      .ok (.perform c ⟨settings, operands⟩)

theorem ne_dashes {word : Text} (h : isDashed word = false) : word ≠ "--" := by
  rintro rfl
  cases h

theorem words_cons (word : Text) (hword : word ≠ []) (hdashed : isDashed word = false)
    (hnext : takesNext word = false) (rest : List Text) :
    words (word :: rest) = word :: words rest := by
  rw [words.eq_def]
  simp [ne_dashes hdashed, hnext, hword, hdashed]

theorem dropWord_cons (word : Text) (hdashed : isDashed word = false)
    (hnext : takesNext word = false) (rest : List Text) :
    dropWord word (word :: rest) = rest := by
  rw [dropWord.eq_def]
  simp [ne_dashes hdashed, hnext]

theorem identified_specs {c : Subcommand} (hc : c ∈ [Subcommand.build, .run]) :
    ∀ s ∈ c.specs ++ sharedSpecs ++ [helpSpec],
      Options.Anywhere.Identified (c.specs ++ sharedSpecs ++ [helpSpec]) s := by
  simp only [Options.Anywhere.identified_iff]
  revert c
  decide +kernel

theorem requestOf_eq {c : Subcommand} (hc : c ∈ [Subcommand.build, .run]) {args : List Text}
    {a : Arguments}
    (hparse : Options.Anywhere.parse (c.specs ++ sharedSpecs ++ [helpSpec]) args = .ok a)
    (hhelp : a.toggle "help" = false) : requestOf (some c) args = .ok (.perform c a) := by
  obtain rfl | rfl : c = .build ∨ c = .run := by simpa using hc
  all_goals
    simp only [requestOf, Option.map_some, Option.getD_some, hparse]
    exact if_neg (by simp [hhelp])

theorem conventional_request : Conventional request := by
  intro c hc settings written operands hwritten hhelp
  have hparse := Options.Anywhere.parse_written (identified_specs hc) hwritten operands
  have htoggle : Arguments.toggle ⟨settings, operands⟩ "help" = false :=
    Arguments.toggle_of_not_given hhelp
  have hname : Subcommand.ofName? c.name = some c := by
    cases c <;> decide
  have hword : Text.ofString c.name ≠ [] ∧ isDashed c.name = false ∧ takesNext c.name = false := by
    cases c <;> decide
  obtain ⟨hnil, hdashed, hnext⟩ := hword
  rw [request, words_cons c.name hnil hdashed hnext]
  simp only [hname, dropWord_cons c.name hdashed hnext]
  exact requestOf_eq hc hparse htoggle

end Command.Run

end ArithAsm
