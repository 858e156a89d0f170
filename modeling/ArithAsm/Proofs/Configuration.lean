import ArithAsm.Toolchain
import ArithAsm.Proofs.ShellWords

/-!
Which configurations of the toolchain can be used. A file gives a driver with a
name and a positive timeout, or it is refused. The variable that overrides the
driver is not checked in the same way: it can name a driver by an empty word, and
it does so exactly if its text opens with a quoted word that has nothing in it. This
holds for any decoding of files and any sound way to split a text into words.
-/

namespace ArithAsm

namespace Toolchain

/-- There is a program to start, and time for it to run. -/
structure Usable (c : Toolchain) : Prop where
  driver : c.driver ≠ []
  timeout : 0 < c.timeout.nanoseconds

theorem defaultTimeout_pos : 0 < defaultTimeout.nanoseconds := by
  decide

theorem usable_ofHost (system processor : String) : (ofHost system processor).Usable :=
  ⟨List.cons_ne_nil _ _, defaultTimeout_pos⟩

theorem usable_of_check {path : Text} {c checked : Toolchain} (h : c.check path = .ok checked) :
    checked.Usable := by
  unfold check at h
  split at h
  · cases h
  rename_i hdriver
  split at h
  · obtain rfl := Except.ok.inj h
    exact ⟨hdriver, defaultTimeout_pos⟩
  · rename_i htimeout
    obtain rfl := Except.ok.inj h
    exact ⟨hdriver, by omega⟩

section Formats

variable {formats : Formats}

theorem usable_of_ofContents {base c : Toolchain} {path : Text}
    {contents : Except FileError Text} (h : formats.ofContents base path contents = .ok c) :
    c.Usable := by
  obtain ⟨t, _, h⟩ := Result.bind_eq_ok_iff.mp h
  obtain ⟨updated, _, h⟩ := Result.bind_eq_ok_iff.mp h
  exact usable_of_check h

/-- Whatever is in the file, a configuration that loads can be used. -/
theorem usable_of_load {σ : Type} {files : FileSystem (StateM σ)} {base loaded : Toolchain}
    (hbase : base.Usable) {path : Text} {s : σ}
    (h : (formats.load files base path s).1 = .ok loaded) : loaded.Usable := by
  unfold Formats.load at h
  split at h
  · obtain rfl := Except.ok.inj h
    exact hbase
  · exact usable_of_ofContents h

/-- The variable changes nothing, or else the driver and the flags, to its words. -/
theorem withVariable_cases {loaded c : Toolchain} {value : Option Text}
    (h : formats.withVariable loaded value = .ok c) :
    (c = loaded ∧ ∀ t, value = some t → t = [] ∨ formats.split t = .ok []) ∨
    ∃ t driver flags, value = some t ∧ formats.split t = .ok (driver :: flags) ∧
      c = { loaded with driver, flags } := by
  unfold Formats.withVariable at h
  split at h
  · exact .inl ⟨(Except.ok.inj h).symm, by simp⟩
  · exact .inl ⟨(Except.ok.inj h).symm, by simp⟩
  · rename_i t _
    split at h
    · cases h
    · rename_i hsplit
      exact .inl ⟨(Except.ok.inj h).symm, by simpa using .inr hsplit⟩
    · rename_i driver flags hsplit
      exact .inr ⟨t, driver, flags, rfl, hsplit, (Except.ok.inj h).symm⟩

theorem timeout_withVariable {loaded c : Toolchain} {value : Option Text}
    (h : formats.withVariable loaded value = .ok c) : c.timeout = loaded.timeout := by
  rcases withVariable_cases h with ⟨rfl, _⟩ | ⟨_, _, _, _, _, rfl⟩ <;> rfl

theorem driver_withVariable_eq_nil_iff (hsplit : ShellWords.Sound formats.split)
    {loaded c : Toolchain} {value : Option Text} (hdriver : loaded.driver ≠ [])
    (h : formats.withVariable loaded value = .ok c) :
    c.driver = [] ↔ ∃ t, value = some t ∧ ShellWords.OpensEmpty t := by
  rcases withVariable_cases h with ⟨rfl, hnone⟩ | ⟨t, driver, flags, rfl, hwords, rfl⟩
  · refine iff_of_false hdriver ?_
    rintro ⟨t, ht, hopens⟩
    rcases hnone t ht with rfl | hwords
    · cases hopens
    · cases (hsplit t [] hwords).head?_eq_nil_iff.mpr hopens
  · have hopens := (hsplit t _ hwords).head?_eq_nil_iff
    simpa using hopens

/-- A configuration that was loaded, on any host and from any file, and then
overridden by the variable keeps its timeout, which is positive. Its driver has a
name, and so has the program that building starts, unless the text of the variable
opens with an empty word. -/
theorem usable_unless_opensEmpty (hsplit : ShellWords.Sound formats.split) {σ : Type}
    {files : FileSystem (StateM σ)} {s : σ} {system processor : String} {path : Text}
    {value : Option Text} {loaded c : Toolchain}
    (hload : (formats.load files (ofHost system processor) path s).1 = .ok loaded)
    (hvariable : formats.withVariable loaded value = .ok c) :
    c.timeout = loaded.timeout ∧ 0 < c.timeout.nanoseconds ∧
    (c.driver = [] ↔ ∃ t, value = some t ∧ ShellWords.OpensEmpty t) ∧
    ∀ directory name, (c.buildCommand directory name).head? = some [] ↔
      ∃ t, value = some t ∧ ShellWords.OpensEmpty t := by
  have hloaded : loaded.Usable := usable_of_load (usable_ofHost system processor) hload
  have htimeout : c.timeout = loaded.timeout := timeout_withVariable hvariable
  have hdriver := driver_withVariable_eq_nil_iff hsplit hloaded.driver hvariable
  refine ⟨htimeout, ?_, hdriver, ?_⟩
  · rw [htimeout]
    exact hloaded.timeout
  · intro directory name
    rw [← hdriver]
    simp [buildCommand]

end Formats

/-- A file with a timeout that gives way to the default. -/
def clangDirectory : Directory :=
  .ofFiles [("cc.yaml", "driver: clang\ntimeout: -5s\n")]

def clang : Toolchain := ⟨"clang", [], defaultTimeout⟩

/-- After an escaped newline and a space the variable has a word of two empty
quotes, and then another word. -/
def hollowVariable : Text := "\\\n ''\"\" -O2"

theorem clang_unusable :
    (load Directory.fileSystem (ofHost "linux" "amd64") "cc.yaml" clangDirectory).1 = .ok clang ∧
    clang.withVariable (some hollowVariable) = .ok { clang with driver := [], flags := ["-O2"] } ∧
    ShellWords.OpensEmpty hollowVariable := by
  have hload : (load Directory.fileSystem (ofHost "linux" "amd64") "cc.yaml" clangDirectory).1 =
      .ok clang := by
    apply Result.eq_ok_of_toOption
    decide +kernel
  have hvariable : clang.withVariable (some hollowVariable) =
      .ok { clang with driver := [], flags := ["-O2"] } := rfl
  obtain ⟨_, _, hdriver, _⟩ := usable_unless_opensEmpty ShellWords.sound_split hload hvariable
  obtain ⟨t, ht, hopens⟩ := hdriver.mp rfl
  exact ⟨hload, hvariable, (Option.some.inj ht) ▸ hopens⟩

/-- With nothing but an empty word in the variable, the defaults of a host lose
their driver, and the command that builds has no program. -/
theorem emptyWord_unusable :
    (load Directory.fileSystem (ofHost "linux" "amd64") [] ⟨[]⟩).1 = .ok (ofHost "linux" "amd64") ∧
    ∃ c, (ofHost "linux" "amd64").withVariable (some "''") = .ok c ∧
      c.driver = [] ∧ (c.buildCommand [] "main").head? = some [] :=
  ⟨rfl, _, rfl, rfl, rfl⟩

end Toolchain

end ArithAsm
