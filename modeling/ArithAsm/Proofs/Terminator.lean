import ArithAsm.Command.Compile
import ArithAsm.Proofs.CommandLine
import ArithAsm.Proofs.Decimal
import ArithAsm.Proofs.LeadingOptions

/-!
What the inserted pair of dashes does to the reading of options. The arguments are
searched for a signed expression without regard to what they are, whereas a reading
knows which of them are values of options and which are operands. The dashes are read
as the end of the options unless they come where a value is awaited, and then are that
value, or after the first operand, and then are an operand themselves.
-/

namespace ArithAsm

namespace Options

/-- The options are ended in front of `arg`, the first signed expression. -/
structure Ends (args before : List Text) (arg : Text) (after : List Text) : Prop where
  split : args = before ++ arg :: after
  plain : ∀ a ∈ before, a ≠ "--" ∧ isSigned a = false
  signed : isSigned arg = true

theorem Ends.eq {args before after : List Text} {arg : Text} (h : Ends args before arg after) :
    endBeforeExpression args = before ++ Text.ofString "--" :: arg :: after := by
  rw [h.split, endBeforeExpression_append h.plain, endBeforeExpression_signed h.signed]

theorem endBeforeExpression_cases (args : List Text) :
    endBeforeExpression args = args ∨ ∃ before arg after, Ends args before arg after := by
  induction args with
  | nil => exact .inl rfl
  | cons arg rest ih =>
      rw [endBeforeExpression]
      by_cases hdashes : arg = "--"
      · exact .inl (if_pos hdashes)
      by_cases hsigned : isSigned arg = true
      · exact .inr ⟨[], arg, rest, rfl, by simp, hsigned⟩
      · rw [if_neg hdashes, if_neg hsigned]
        rcases ih with hsame | ⟨before, first, after, hsplit, hplain, hfirst⟩
        · exact .inl (congrArg (arg :: ·) hsame)
        · refine .inr ⟨arg :: before, first, after, congrArg (arg :: ·) hsplit, ?_, hfirst⟩
          exact List.forall_mem_cons.mpr ⟨⟨hdashes, Bool.eq_false_iff.mpr hsigned⟩, hplain⟩

/-- A signed expression is a run of signs with a digit or a parenthesis behind it. -/
theorem exists_signs_of_isSigned {arg : Text} (h : isSigned arg = true) :
    ∃ signs b rest, arg = signs ++ b :: rest ∧ signs ≠ [] ∧ (∀ s ∈ signs, s = 43 ∨ s = 45) ∧
      (Decimal.isDigit b = true ∨ b = 40) := by
  cases arg with
  | nil => cases h
  | cons sign more =>
      simp only [isSigned, Bool.and_eq_true, Bool.or_eq_true, beq_iff_eq] at h
      obtain ⟨hsign, hmore⟩ := h
      split at hmore
      · cases hmore
      · rename_i b rest hrest
        refine ⟨sign :: more.takeWhile (fun s => s == 43 || s == 45), b, rest, ?_, by simp, ?_,
          by simpa using hmore⟩
        · rw [List.cons_append, ← hrest, List.takeWhile_append_dropWhile]
        · refine List.forall_mem_cons.mpr ⟨hsign, fun s hs => ?_⟩
          simpa using List.all_eq_true.mp List.all_takeWhile s hs

end Options

/-- A byte that options are named with. -/
def Options.isLetterByte (b : UInt8) : Bool :=
  (65 ≤ b && b ≤ 90) || (97 ≤ b && b ≤ 122)

/-- The name and the letter of the option start with a letter. -/
def OptionSpec.lettered (s : OptionSpec) : Bool :=
  (Text.ofString s.name).head?.any Options.isLetterByte && s.letter.all Options.isLetterByte

namespace Options.Leading

variable {specs : List OptionSpec} {pending : Option (OptionSpec × Text)} {before : List Text}

theorem named_ne_terminator (t : Text) : named t ≠ .terminator := by
  unfold named
  split
  · simp
  · split <;> simp

theorem eq_of_shape_terminator {arg : Text} (h : shape arg = .terminator) : arg = "--" := by
  unfold shape at h
  split at h
  · rfl
  · exact absurd h (named_ne_terminator _)
  · exact absurd h (named_ne_terminator _)
  · cases h

/-- The settings come first. -/
def withSettings (settings : List Setting) (a : Arguments) : Arguments :=
  { a with settings := settings ++ a.settings }

theorem map_withSettings_nil (x : Except Error Arguments) : x.map (withSettings []) = x := by
  cases x <;> rfl

/-- What reading some arguments means for those after them. -/
inductive Reading (specs : List OptionSpec) (pending : Option (OptionSpec × Text))
    (before : List Text) : Prop
  | options (settings : List Setting)
      (hread : ∀ rest, read specs pending (before ++ rest) =
        (read specs none rest).map (withSettings settings))
  | value (settings : List Setting) (s : OptionSpec) (name : Text) (hs : s ∈ specs)
      (hkind : s.kind ≠ .toggle)
      (hread : ∀ rest, read specs pending (before ++ rest) =
        (read specs (some (s, name)) rest).map (withSettings settings))
  | operands (a : Arguments) (hoperands : a.operands ≠ [])
      (hread : ∀ rest, read specs pending (before ++ rest) =
        .ok { a with operands := a.operands ++ rest })
  | refused (e : Error) (he : ∀ name, e ≠ .missingValue name)
      (hread : ∀ rest, read specs pending (before ++ rest) = .error e)

@[simp] theorem withSettings_withSettings (front settings : List Setting) (a : Arguments) :
    withSettings front (withSettings settings a) = withSettings (front ++ settings) a := by
  simp [withSettings]

/-- One argument in front of others that have been read. -/
theorem Reading.cons {arg : Text} {next : Option (OptionSpec × Text)} {front : List Setting}
    (hcons : ∀ rest, read specs pending (arg :: rest) =
      (read specs next rest).map (withSettings front))
    (h : Reading specs next before) : Reading specs pending (arg :: before) := by
  cases h with
  | options settings hread =>
      refine .options (front ++ settings) fun rest => ?_
      simp only [List.cons_append, hcons, hread, Result.map_map, withSettings_withSettings]
  | value settings s name hs hkind hread =>
      refine .value (front ++ settings) s name hs hkind fun rest => ?_
      simp only [List.cons_append, hcons, hread, Result.map_map, withSettings_withSettings]
  | operands a hoperands hread =>
      refine .operands (withSettings front a) hoperands fun rest => ?_
      rw [List.cons_append, hcons, hread]
      rfl
  | refused e he hread =>
      refine .refused e he fun rest => ?_
      rw [List.cons_append, hcons, hread]
      rfl

/-- An option whose value is at hand. -/
theorem Reading.of_setting {arg name value : Text} {s : OptionSpec}
    (hset : ∀ rest, read specs pending (arg :: rest) = (do
      let given ← setting s name value
      return (← read specs none rest).add given))
    (h : Reading specs none before) : Reading specs pending (arg :: before) := by
  cases hgiven : setting s name value with
  | ok given =>
      have hcons (rest : List Text) : read specs pending (arg :: rest) =
          (read specs none rest).map (withSettings [given]) := by
        rw [hset, hgiven]
        cases read specs none rest <;> rfl
      exact h.cons hcons
  | error e =>
      refine .refused e ?_ fun rest => ?_
      · rintro missing rfl
        rcases error_of_setting hgiven with h | ⟨_, h⟩ <;> cases h
      · rw [List.cons_append, hset, hgiven]
        rfl

theorem reading (hpending : ∀ p ∈ pending, p.1 ∈ specs ∧ p.1.kind ≠ .toggle)
    (hbefore : Text.ofString "--" ∉ before) : Reading specs pending before := by
  fun_induction read specs pending before with
  | case1 s name =>
      obtain ⟨hs, hkind⟩ := hpending (s, name) rfl
      exact .value [] s name hs hkind fun rest => (map_withSettings_nil _).symm
  | case2 => exact .options [] fun rest => (map_withSettings_nil _).symm
  | case3 arg before s name ih =>
      have hset (rest : List Text) : read specs (some (s, name)) (arg :: rest) = (do
          let given ← setting s name arg
          return (← read specs none rest).add given) := by
        rw [read]
      exact .of_setting hset (ih (by simp) fun h => hbefore (List.mem_cons_of_mem arg h))
  | case4 arg before hshape =>
      refine .operands ⟨[], arg :: before⟩ (by simp) fun rest => ?_
      rw [List.cons_append, read, hshape]
  | case5 arg before hshape =>
      exact absurd (eq_of_shape_terminator hshape ▸ List.mem_cons_self) hbefore
  | case6 arg before hshape =>
      refine .refused (.malformed arg) (by simp) fun rest => ?_
      rw [List.cons_append, read, hshape]
  | case7 arg before name value hshape hfind =>
      refine .refused (.undefined name) (by simp) fun rest => ?_
      simp only [List.cons_append, read, hshape, hfind]
  | case8 arg before name s hfind value hshape ih =>
      have hset (rest : List Text) : read specs none (arg :: rest) = (do
          let given ← setting s name value
          return (← read specs none rest).add given) := by
        simp only [read, hshape, hfind]
      exact .of_setting hset (ih (by simp) fun h => hbefore (List.mem_cons_of_mem arg h))
  | case9 arg before name s hfind hkind hshape ih =>
      have hset (rest : List Text) : read specs none (arg :: rest) = (do
          let given ← setting s name "true"
          return (← read specs none rest).add given) := by
        simp only [read, hshape, hfind, hkind]
      exact .of_setting hset (ih (by simp) fun h => hbefore (List.mem_cons_of_mem arg h))
  | case10 arg before name s hfind hshape hkind ih =>
      have hcons (rest : List Text) : read specs none (arg :: rest) =
          (read specs (some (s, name)) rest).map (withSettings []) := by
        rw [map_withSettings_nil]
        simp only [read, hshape, hfind]
      have hpending' : ∀ p ∈ some (s, name), p.1 ∈ specs ∧ p.1.kind ≠ .toggle := by
        simpa using ⟨List.mem_of_find?_eq_some hfind, hkind⟩
      exact (ih hpending' fun h => hbefore (List.mem_cons_of_mem arg h)).cons hcons

section Signed

theorem exists_named {b : UInt8} (hdash : b ≠ 45) (hequals : b ≠ 61) (t : Text) :
    ∃ name value, named (b :: t) = .option (b :: name) value := by
  have hnot : ¬ (b = 45 ∨ b = 61) := by simp [hdash, hequals]
  simp only [named, if_neg hnot, splitValue]
  split
  · exact ⟨t, none, rfl⟩
  · exact ⟨_, _, by rw [List.takeWhile_cons_of_pos (by simpa using hequals)]⟩

/-- No option has a name that starts like an expression. -/
theorem find?_eq_none_of_lettered (hspecs : ∀ s ∈ specs, s.lettered = true) {b : UInt8}
    (hb : isLetterByte b = false) (name : Text) : find? specs (b :: name) = none := by
  rw [find?, List.find?_eq_none]
  intro s hs hname
  have hlettered := hspecs s hs
  simp only [OptionSpec.lettered, Bool.and_eq_true] at hlettered
  rcases Bool.or_eq_true_iff.mp hname with hmain | hletter
  · rw [beq_iff_eq.mp hmain] at hlettered
    simp [hb] at hlettered
  · unfold isLetter at hletter
    split at hletter
    · rename_i letter hsome
      simp only [beq_iff_eq, List.cons.injEq] at hletter
      rw [hsome, ← hletter.1] at hlettered
      simp [hb] at hlettered
    · cases hletter

theorem shape_dash {b : UInt8} (hb : b ≠ 45) (t : Text) :
    shape (45 :: b :: t) = named (b :: t) := by
  unfold shape
  split
  case h_1 heq => simp_all
  case h_2 heq => simp_all
  case h_3 heq =>
    cases heq
    rfl
  case h_4 hno => exact absurd rfl (hno b t)

theorem isLetterByte_of_opens {b : UInt8} (h : b = 43 ∨ Decimal.isDigit b = true ∨ b = 40) :
    isLetterByte b = false ∧ b ≠ 45 ∧ b ≠ 61 := by
  rcases h with rfl | hdigit | rfl
  · decide
  · obtain ⟨hlow, hhigh⟩ := Decimal.bounds_of_isDigit hdigit
    simp only [UInt8.le_iff_toNat_le, UInt8.reduceToNat] at hlow hhigh
    simp only [isLetterByte, Bool.or_eq_false_iff, Bool.and_eq_false_iff, decide_eq_false_iff_not,
      UInt8.le_iff_toNat_le, UInt8.reduceToNat, ne_eq, ← UInt8.toNat_inj]
    omega
  · decide

/-- With a plus in front a signed expression is an operand; with a dash it looks like an
option, but no option is named like that. -/
theorem read_signed (hspecs : ∀ s ∈ specs, s.lettered = true) {arg : Text}
    (h : isSigned arg = true) (rest : List Text) :
    (arg.head? ≠ some 45 → read specs none (arg :: rest) = .ok { operands := arg :: rest }) ∧
    (arg.head? = some 45 → ∃ e, read specs none (arg :: rest) = .error e) := by
  have hnamed {t : Text} {b : UInt8} (hb : b = 43 ∨ Decimal.isDigit b = true ∨ b = 40)
      (hshape : shape arg = named (b :: t)) : ∃ e, read specs none (arg :: rest) = .error e := by
    obtain ⟨hletter, hdash, hequals⟩ := isLetterByte_of_opens hb
    obtain ⟨name, value, hoption⟩ := exists_named hdash hequals t
    have hfind := find?_eq_none_of_lettered hspecs hletter name
    exact ⟨.undefined (b :: name), by simp only [read, hshape, hoption, hfind]⟩
  obtain ⟨signs, b, tail, rfl, hsigns, hall, hb⟩ := exists_signs_of_isSigned h
  cases signs with
  | nil => exact absurd rfl hsigns
  | cons sign more =>
      rcases hall sign List.mem_cons_self with rfl | rfl
      · exact ⟨fun _ => rfl, fun hdash => absurd hdash (by simp)⟩
      refine ⟨fun hdash => absurd rfl hdash, fun _ => ?_⟩
      cases more with
      | nil => exact hnamed (.inr hb) (shape_dash (isLetterByte_of_opens (.inr hb)).2.1 tail)
      | cons second more =>
          rcases hall second (by simp) with rfl | rfl
          · exact hnamed (.inl rfl) rfl
          · cases more with
            | nil => exact hnamed (.inr hb) rfl
            | cons third more =>
                rcases hall third (by simp) with rfl | rfl
                · exact hnamed (.inl rfl) rfl
                · exact ⟨.malformed _, rfl⟩

end Signed

theorem read_terminator (rest : List Text) :
    read specs none (Text.ofString "--" :: rest) = .ok { operands := rest } := rfl

theorem read_pending_text {s : OptionSpec} (hkind : s.kind = .text) (name arg : Text)
    (rest : List Text) :
    read specs (some (s, name)) (arg :: rest) =
      (read specs none rest).map (withSettings [⟨s.name, isLetter s name, .text arg⟩]) := by
  have hsetting : setting s name arg = .ok ⟨s.name, isLetter s name, .text arg⟩ := by
    simp [setting, valueOf, hkind]
  rw [read, hsetting]
  cases read specs none rest <;> rfl

/-- Reading the arguments ends with an option that still needs its value. -/
def AwaitsValue (specs : List OptionSpec) (before : List Text) : Prop :=
  ∃ name, read specs none before = .error (.missingValue name)

/-- The arguments have an operand. -/
def HasOperand (specs : List OptionSpec) (before : List Text) : Prop :=
  ∃ b, read specs none before = .ok b ∧ b.operands ≠ []

/-- The options are ended where none can stand: in front of a value, or after an
operand. -/
def Displaced (specs : List OptionSpec) (args : List Text) : Prop :=
  ∃ before arg after, Ends args before arg after ∧
    (AwaitsValue specs before ∨ HasOperand specs before)

section Before

variable (hbefore : Text.ofString "--" ∉ before)

include hbefore

theorem reading_none : Reading specs none before :=
  reading (by simp) hbefore

theorem exists_of_awaitsValue (h : AwaitsValue specs before) :
    ∃ settings, ∃ s ∈ specs, ∃ name, s.kind ≠ .toggle ∧ ∀ rest, read specs none (before ++ rest) =
      (read specs (some (s, name)) rest).map (withSettings settings) := by
  obtain ⟨missing, hmissing⟩ := h
  have hnil := List.append_nil before
  cases reading_none hbefore with
  | options settings hread =>
      rw [← hnil, hread] at hmissing
      cases hmissing
  | value settings s name hs hkind hread => exact ⟨settings, s, hs, name, hkind, hread⟩
  | operands a _ hread =>
      rw [← hnil, hread] at hmissing
      cases hmissing
  | refused e he hread =>
      rw [← hnil, hread] at hmissing
      exact absurd (Except.error.inj hmissing) (he missing)

theorem read_append_of_operand {b : Arguments} (h : read specs none before = .ok b)
    (hoperands : b.operands ≠ []) (rest : List Text) :
    read specs none (before ++ rest) = .ok { b with operands := b.operands ++ rest } := by
  have hnil := List.append_nil before
  cases reading_none hbefore with
  | options settings hread =>
      rw [← hnil, hread] at h
      cases h
      exact absurd rfl hoperands
  | value settings s name _ _ hread =>
      rw [← hnil, hread] at h
      cases h
  | operands a _ hread =>
      rw [← hnil, hread, List.append_nil] at h
      obtain rfl : a = b := Except.ok.inj h
      exact hread rest
  | refused e he hread =>
      rw [← hnil, hread] at h
      cases h

theorem exists_of_neither (hvalue : ¬ AwaitsValue specs before)
    (hoperand : ¬ HasOperand specs before)
    {rest : List Text} {a : Arguments} (h : read specs none (before ++ rest) = .ok a) :
    ∃ settings, ∀ rest, read specs none (before ++ rest) =
      (read specs none rest).map (withSettings settings) := by
  have hnil := List.append_nil before
  cases reading_none hbefore with
  | options settings hread => exact ⟨settings, hread⟩
  | value settings s name _ _ hread =>
      refine absurd ⟨name, ?_⟩ hvalue
      rw [← hnil, hread]
      rfl
  | operands a hoperands hread =>
      refine absurd ⟨_, ?_, hoperands⟩ hoperand
      simpa using hread []
  | refused e _ hread =>
      rw [hread] at h
      cases h

end Before

section Effect

variable {args after : List Text} {arg : Text} {a : Arguments}

theorem dashes_not_mem (h : Ends args before arg after) : Text.ofString "--" ∉ before :=
  fun hmem => (h.plain _ hmem).1 rfl

/-- After an operand the dashes are one operand more. -/
theorem read_of_hasOperand (hends : Ends args before arg after)
    (hread : read specs none args = .ok a)
    {b : Arguments} (hb : read specs none before = .ok b) (hoperands : b.operands ≠ []) :
    a.operands = b.operands ++ arg :: after ∧
    read specs none (endBeforeExpression args) =
      .ok { a with operands := b.operands ++ Text.ofString "--" :: arg :: after } := by
  have happend := read_append_of_operand (dashes_not_mem hends) hb hoperands
  rw [hends.split, happend] at hread
  obtain rfl := Except.ok.inj hread
  exact ⟨rfl, by rw [hends.eq, happend]⟩

variable (hlettered : ∀ s ∈ specs, s.lettered = true)

include hlettered

/-- Elsewhere the dashes do nothing, since they stand in front of an operand. -/
theorem read_of_not_displaced (hends : Ends args before arg after)
    (hread : read specs none args = .ok a) (hvalue : ¬ AwaitsValue specs before)
    (hoperand : ¬ HasOperand specs before) :
    read specs none (endBeforeExpression args) = .ok a := by
  obtain ⟨hplus, hdash⟩ := read_signed hlettered hends.signed after
  rw [hends.split] at hread
  obtain ⟨settings, happend⟩ := exists_of_neither (dashes_not_mem hends) hvalue hoperand hread
  rw [happend] at hread
  rw [hends.eq, happend, read_terminator, ← hread, hplus]
  intro hhead
  obtain ⟨e, he⟩ := hdash hhead
  rw [he] at hread
  cases hread

variable (htextual : ∀ s ∈ specs, s.kind ≠ .toggle → s.kind = .text)

include htextual

/-- Where a value is awaited the dashes are taken for it, and the argument that was the
value is read for itself: as an operand, or as an option that there is not. -/
theorem read_of_awaitsValue (hends : Ends args before arg after)
    (hread : read specs none args = .ok a) (hvalue : AwaitsValue specs before) :
    ∃ front option byLetter back, a.settings = front ++ ⟨option, byLetter, .text arg⟩ :: back ∧
      (arg.head? ≠ some 45 → read specs none (endBeforeExpression args) =
        .ok ⟨front ++ [⟨option, byLetter, .text "--"⟩], arg :: after⟩) ∧
      (arg.head? = some 45 → ∃ e, read specs none (endBeforeExpression args) = .error e) := by
  obtain ⟨hplus, hdash⟩ := read_signed hlettered hends.signed after
  obtain ⟨front, s, hs, name, hkind, happend⟩ := exists_of_awaitsValue (dashes_not_mem hends) hvalue
  have htext := htextual s hs hkind
  rw [hends.split, happend, read_pending_text htext, Result.map_map] at hread
  obtain ⟨others, _, rfl⟩ := Result.map_eq_ok_iff.mp hread
  refine ⟨front, s.name, isLetter s name, others.settings, rfl, ?_, ?_⟩
  · intro hhead
    rw [hends.eq, happend, read_pending_text htext, hplus hhead]
    rfl
  · intro hhead
    obtain ⟨e, he⟩ := hdash hhead
    rw [hends.eq, happend, read_pending_text htext, he]
    exact ⟨e, rfl⟩

/-- Ending the options changes nothing if and only if they are ended neither in front of
a value nor after an operand. -/
theorem read_endBeforeExpression_iff (hread : read specs none args = .ok a) :
    read specs none (endBeforeExpression args) = .ok a ↔ ¬ Displaced specs args := by
  constructor
  · rintro hsame ⟨before, arg, after, hends, hvalue | ⟨b, hb, hoperands⟩⟩
    · obtain ⟨front, option, byLetter, back, hsettings, hplus, hdash⟩ :=
        read_of_awaitsValue hlettered htextual hends hread hvalue
      rw [hsame] at hplus hdash
      by_cases hhead : arg.head? = some 45
      · obtain ⟨e, he⟩ := hdash hhead
        cases he
      · rw [Except.ok.inj (hplus hhead)] at hsettings
        have hvalues := List.head_eq_of_cons_eq (List.append_cancel_left hsettings)
        simp only [Setting.mk.injEq, OptionValue.text.injEq, true_and] at hvalues
        have hsigned := hends.signed
        rw [← hvalues] at hsigned
        revert hsigned
        decide
    · obtain ⟨hoperands, hdashes⟩ := read_of_hasOperand hends hread hb hoperands
      rw [hsame, Except.ok.injEq] at hdashes
      have hlength := congrArg (fun a => a.operands.length) hdashes
      simp [hoperands] at hlength
  · intro hnot
    rcases endBeforeExpression_cases args with hsame | ⟨before, arg, after, hends⟩
    · rwa [hsame]
    · refine read_of_not_displaced hlettered hends hread ?_ ?_
      · exact fun hvalue => hnot ⟨before, arg, after, hends, .inl hvalue⟩
      · exact fun hoperand => hnot ⟨before, arg, after, hends, .inr hoperand⟩

end Effect

theorem parse_eq_ok_iff {args : List Text} {a : Arguments} :
    parse specs args = .ok a ↔
      read specs none args = .ok a ∧
        (specs.find? fun s => usedAs a s false && usedAs a s true) = none := by
  rw [parse, Result.bind_eq_ok_iff]
  constructor
  · rintro ⟨a', hread, h⟩
    split at h
    · cases h
    · rename_i hnone
      obtain rfl := Except.ok.inj h
      exact ⟨hread, hnone⟩
  · rintro ⟨hread, hnone⟩
    exact ⟨a, hread, by simp [hnone]⟩

end Options.Leading

namespace Command.Compile

open ArithAsm.Options ArithAsm.Options.Leading

/-- Arguments that can be read as they are given are read alike with the inserted dashes
if and only if the dashes are not displaced. Displaced dashes are the value of an
option, which loses its own, or one operand more. -/
theorem terminator_harmless_iff {args : List Text} {a : Arguments}
    (hread : read specs none args = .ok a) :
    (read specs none (endBeforeExpression args) = .ok a ↔ ¬ Displaced specs args) ∧
    (Leading.parse specs args = .ok a →
      (Leading.parse specs (endBeforeExpression args) = .ok a ↔ ¬ Displaced specs args)) ∧
    ∀ before arg after, Ends args before arg after →
      (AwaitsValue specs before → ∃ front option byLetter back,
        a.settings = front ++ ⟨option, byLetter, .text arg⟩ :: back ∧
        (arg.head? ≠ some 45 → read specs none (endBeforeExpression args) =
          .ok ⟨front ++ [⟨option, byLetter, .text "--"⟩], arg :: after⟩) ∧
        (arg.head? = some 45 → ∃ e, read specs none (endBeforeExpression args) = .error e)) ∧
      ∀ b, read specs none before = .ok b → b.operands ≠ [] →
        a.operands = b.operands ++ arg :: after ∧
        read specs none (endBeforeExpression args) =
          .ok { a with operands := b.operands ++ Text.ofString "--" :: arg :: after } := by
  have hlettered : ∀ s ∈ specs, s.lettered = true := by decide
  have htextual : ∀ s ∈ specs, s.kind ≠ .toggle → s.kind = .text := by decide
  have hiff := read_endBeforeExpression_iff hlettered htextual hread
  refine ⟨hiff, ?_, fun before arg after hends => ⟨?_, ?_⟩⟩
  · intro hparse
    rw [← hiff, parse_eq_ok_iff, and_iff_left (parse_eq_ok_iff.mp hparse).2]
  · exact read_of_awaitsValue hlettered htextual hends hread
  · exact fun b hb hoperands => read_of_hasOperand hends hread hb hoperands

/-- The dashes come in front of the expression, which needs none. -/
theorem terminator_harmless_plus :
    ∃ a, read specs none ["-o", "x.s", "+5"] = .ok a ∧
      endBeforeExpression ["-o", "x.s", "+5"] = ["-o", "x.s", "--", "+5"] ∧
      ¬ Displaced specs ["-o", "x.s", "+5"] ∧
      read specs none (endBeforeExpression ["-o", "x.s", "+5"]) = .ok a := by
  have hread : read specs none ["-o", "x.s", "+5"] =
    .ok ⟨[⟨"output", true, .text "x.s"⟩], ["+5"]⟩ := by decide
  have hsame : read specs none (endBeforeExpression ["-o", "x.s", "+5"]) =
    .ok ⟨[⟨"output", true, .text "x.s"⟩], ["+5"]⟩ := by decide
  obtain ⟨hiff, _⟩ := terminator_harmless_iff hread
  exact ⟨_, hread, by decide, hiff.mp hsame, hsame⟩

/-- The file to write to looks like a signed expression. As they are given, the
arguments can be read; with the dashes inserted they cannot. -/
theorem terminator_displaces_value :
    (∃ a, Leading.parse specs ["-o", "-1", "2"] = .ok a ∧ a.text "output" "-" = "-1" ∧
      a.operands = ["2"]) ∧
    Leading.parse specs (endBeforeExpression ["-o", "-1", "2"]) = .error (.undefined "1") :=
  ⟨⟨_, rfl, by decide, by decide⟩, by decide⟩

end Command.Compile

end ArithAsm
