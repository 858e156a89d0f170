import ArithAsm.Proofs.Listing
import ArithAsm.Proofs.Printing

/-!
Distinct expressions have distinct listings. Code follows the reverse Polish
notation of its expression, with one block of lines for each entry. A block ends
with its first line that pushes, so code falls into blocks in one way only, and
the expression can be rebuilt from them.
-/

namespace ArithAsm

namespace Expr

/-- An entry of an expression in reverse Polish notation. -/
inductive Entry where
  | number (n : UInt64)
  | operator (op : Operator)

/-- The entries of an expression, each operator after its operands. -/
def polish : Expr → List Entry
  | .number _ n => [.number n]
  | .binary _ op l r => polish l ++ polish r ++ [.operator op]

/-- Reads an entry, given the expressions that wait for an operator, the last one
first. -/
def rebuild (waiting : List Expr) : Entry → List Expr
  | .number n => .number .start n :: waiting
  | .operator op =>
      match waiting with
      | r :: l :: waiting => .binary .start op l r :: waiting
      | waiting => waiting

theorem foldl_polish (e : Expr) (waiting : List Expr) :
    e.polish.foldl rebuild waiting = e.unlocated :: waiting := by
  induction e generalizing waiting with
  | number loc n => rfl
  | binary loc op l r ihl ihr =>
      rw [polish, List.foldl_append, List.foldl_append, ihl, ihr]
      rfl

theorem polish_unlocated (e : Expr) : polish e.unlocated = e.polish := by
  induction e with
  | number loc n => rfl
  | binary loc op l r ihl ihr => rw [Tree.unlocated, polish, polish, ihl, ihr]

/-- The entries leave nothing of an expression open but its locations. -/
theorem polish_eq_iff {e e' : Expr} : e.polish = e'.polish ↔ e.unlocated = e'.unlocated := by
  constructor
  · intro h
    have hrebuilt := foldl_polish e []
    rw [h, foldl_polish] at hrebuilt
    exact (List.cons.inj hrebuilt).1.symm
  · intro h
    rw [← polish_unlocated e, h, polish_unlocated]

end Expr

/-- A list is cut at its first element with a property in one way only. -/
theorem cut_unique {α : Type} {p : α → Prop} {xs ys as bs : List α} {x y : α}
    (hxs : ∀ a ∈ xs, ¬ p a) (hx : p x) (hys : ∀ a ∈ ys, ¬ p a) (hy : p y)
    (h : xs ++ x :: as = ys ++ y :: bs) : xs = ys ∧ x = y ∧ as = bs := by
  induction xs generalizing ys with
  | nil =>
      cases ys with
      | nil => exact ⟨rfl, List.cons.inj h⟩
      | cons b ys =>
          obtain ⟨rfl, _⟩ := List.cons.inj h
          exact absurd hx (hys x List.mem_cons_self)
  | cons a xs ih =>
      cases ys with
      | nil =>
          obtain ⟨rfl, _⟩ := List.cons.inj h
          exact absurd hy (hxs a List.mem_cons_self)
      | cons b ys =>
          obtain ⟨rfl, hrest⟩ := List.cons.inj h
          obtain ⟨rfl, hcut⟩ := ih (fun c hc => hxs c (List.mem_cons_of_mem a hc))
            (fun c hc => hys c (List.mem_cons_of_mem a hc)) hrest
          exact ⟨rfl, hcut⟩

/-- The last line, and no other, has the given mnemonic. -/
def EndsWith (op : String) (ls : List Line) : Prop :=
  ∃ body last, ls = body ++ [last] ∧ (∀ l ∈ body, l.op ≠ op) ∧ last.op = op

namespace EndsWith

variable {op : String} {ls ls' rest rest' : List Line}

theorem ne_nil (h : EndsWith op ls) : ls ≠ [] := by
  obtain ⟨body, last, rfl, _⟩ := h
  exact List.append_ne_nil_of_right_ne_nil body (List.cons_ne_nil last [])

theorem append_inj (h : EndsWith op ls) (h' : EndsWith op ls')
    (heq : ls ++ rest = ls' ++ rest') : ls = ls' ∧ rest = rest' := by
  obtain ⟨body, last, rfl, hbody, hlast⟩ := h
  obtain ⟨body', last', rfl, hbody', hlast'⟩ := h'
  rw [List.append_assoc, List.append_assoc] at heq
  obtain ⟨rfl, rfl, hrest⟩ := cut_unique hbody hlast hbody' hlast' heq
  exact ⟨rfl, hrest⟩

end EndsWith

/-- The code an architecture has for numbers and for operators. What is required
of it is what keeps the blocks apart. -/
structure EntryCode where
  use : StackUse
  number : UInt64 → List Line
  operation : Operator → List Line
  number_pushes (n : UInt64) : use.Pushes (number n) {} n.toInt64
  number_endsWith (n : UInt64) : EndsWith use.push.op (number n)
  number_head? (n : UInt64) : (number n).head? ≠ some use.popRight
  operation_injective : Function.Injective operation
  operation_op_ne (op : Operator) :
    ∀ l ∈ [use.popRight, use.popLeft] ++ operation op, l.op ≠ use.push.op

namespace EntryCode

open ArithAsm.Expr (Entry)

variable (c : EntryCode)

/-- The lines of one entry: all of an operation but its operands. -/
def block : Entry → List Line
  | .number n => c.number n
  | .operator op => [c.use.popRight, c.use.popLeft] ++ c.operation op ++ [c.use.push]

theorem block_endsWith (x : Entry) : EndsWith c.use.push.op (c.block x) := by
  cases x with
  | number n => exact c.number_endsWith n
  | operator op => exact ⟨_, _, rfl, c.operation_op_ne op, rfl⟩

/-- Numbers differ by the word their code pushes, operators by their lines, and
only operators begin by taking an operand. -/
theorem block_injective : Function.Injective c.block := by
  intro x y h
  cases x with
  | number n =>
      cases y with
      | number n' =>
          have hpushes := c.number_pushes n
          rw [show c.number n = c.number n' from h] at hpushes
          have hword := congrArg Int64.toUInt64 (hpushes.unique (c.number_pushes n'))
          rw [UInt64.toUInt64_toInt64, UInt64.toUInt64_toInt64] at hword
          rw [hword]
      | operator op => exact absurd (congrArg List.head? h) (c.number_head? n)
  | operator op =>
      cases y with
      | number n => exact absurd (congrArg List.head? h.symm) (c.number_head? n)
      | operator op' =>
          have hoperation := List.append_cancel_left (List.append_cancel_right h)
          rw [c.operation_injective hoperation]

/-- Code that is made of blocks tells which entries they are for. -/
theorem flatMap_block_injective : Function.Injective (List.flatMap c.block) := by
  intro xs
  induction xs with
  | nil =>
      intro ys h
      cases ys with
      | nil => rfl
      | cons y ys =>
          have hnil := (List.append_eq_nil_iff.mp h.symm).1
          exact absurd hnil (c.block_endsWith y).ne_nil
  | cons x xs ih =>
      intro ys h
      cases ys with
      | nil =>
          have hnil := (List.append_eq_nil_iff.mp h).1
          exact absurd hnil (c.block_endsWith x).ne_nil
      | cons y ys =>
          obtain ⟨hfirst, hrest⟩ := (c.block_endsWith x).append_inj (c.block_endsWith y) h
          rw [c.block_injective hfirst, ih hrest]

/-- Code in which operations come after their operands is made of blocks. -/
theorem eq_flatMap_block (code : Expr → List Line)
    (hnumber : ∀ loc n, code (.number loc n) = c.block (.number n))
    (hbinary : ∀ loc op l r, code (.binary loc op l r) = code l ++ code r ++ c.block (.operator op))
    (e : Expr) : code e = e.polish.flatMap c.block := by
  induction e with
  | number loc n => rw [hnumber, Expr.polish, List.flatMap_singleton]
  | binary loc op l r ihl ihr =>
      rw [hbinary, Expr.polish, List.flatMap_append, List.flatMap_append, List.flatMap_singleton,
        ihl, ihr]

end EntryCode

namespace X86

theorem pushNumber_endsWith (value : Int64) :
    EndsWith "pushq" (Code.lines (pushNumber value)) := by
  unfold pushNumber
  split
  · exact ⟨[], (pushq (.immediate value)).line, rfl, by simp, rfl⟩
  · refine ⟨[.instr2 "movabsq" (.immediate value) rax], (pushq rax).line, rfl, ?_, rfl⟩
    rw [List.forall_mem_singleton]
    exact (by decide : "movabsq" ≠ "pushq")

theorem head?_pushNumber (value : Int64) :
    (Code.lines (pushNumber value)).head? ≠ some stackUse.popRight := by
  intro h
  have hop := congrArg (Option.map Line.op) h
  revert hop
  unfold pushNumber
  split
  · exact (by decide : some "pushq" ≠ some "popq")
  · exact (by decide : some "movabsq" ≠ some "popq")

def entryCode : EntryCode where
  use := stackUse
  number n := Code.lines (pushNumber n.toInt64)
  operation := operation
  number_pushes n := pushNumber_pushes n.toInt64 rfl
  number_endsWith n := pushNumber_endsWith n.toInt64
  number_head? n := head?_pushNumber n.toInt64
  operation_injective op op' := by cases op <;> cases op' <;> decide
  operation_op_ne op := by cases op <;> decide

theorem lines_expression (e : Expr) :
    Code.lines (expression e) = e.polish.flatMap entryCode.block := by
  apply entryCode.eq_flatMap_block fun e => Code.lines (expression e)
  · intro loc n
    rfl
  · intro loc op l r
    simp only [expression, Code.lines_append, Code.lines_map_plain]
    rfl

end X86

namespace AArch64

theorem loadImmediate_op_ne (value : UInt64) : ∀ l ∈ loadImmediate "x0" value, l.op ≠ "str" :=
  fun l hl hop => loadImmediate_effectless "x0" value l hl (hop ▸ by decide)

theorem head?_loadImmediate (value : UInt64) :
    (loadImmediate "x0" value ++ [stackUse.push]).head? ≠ some stackUse.popRight := by
  intro h
  exact absurd (congrArg (Option.map Line.op) h) (by decide : some "mov" ≠ some "ldr")

def entryCode : EntryCode where
  use := stackUse
  number n := loadImmediate "x0" n ++ [stackUse.push]
  operation := operation
  number_pushes n := (loadImmediate_computes n rfl).push rfl
  number_endsWith n := ⟨_, _, rfl, loadImmediate_op_ne n, rfl⟩
  number_head? n := head?_loadImmediate n
  operation_injective op op' := by cases op <;> cases op' <;> decide
  operation_op_ne op := by cases op <;> decide

theorem lines_expression (e : Expr) :
    Code.lines (expression e) = e.polish.flatMap entryCode.block := by
  apply entryCode.eq_flatMap_block fun e => Code.lines (expression e)
  · intro loc n
    rw [expression, Code.lines_append, Code.lines_map_plain]
    rfl
  · intro loc op l r
    simp only [expression, Code.lines_append, Code.lines_map_plain]
    rfl

end AArch64

namespace Target

def entryCode : Target → EntryCode
  | x86_64Linux => X86.entryCode
  | aarch64Linux | aarch64Darwin => AArch64.entryCode

theorem lines_expression (t : Target) (e : Expr) :
    Code.lines (t.expression e) = e.polish.flatMap t.entryCode.block := by
  cases t with
  | x86_64Linux => exact X86.lines_expression e
  | aarch64Linux | aarch64Darwin => exact AArch64.lines_expression e

theorem lower_eq_blocks (t : Target) (e : Expr) :
    t.lower e =
      .ok ⟨t.arch, [⟨"main", e.polish.flatMap t.entryCode.block ++ t.epilogue.lines⟩]⟩ := by
  rw [lower_eq_program, program, emitted, Code.lines_append, lines_expression]

/-- Expressions have the same program only if they differ in nothing but
locations. -/
theorem lower_eq_iff (t : Target) (e e' : Expr) :
    t.lower e = t.lower e' ↔ e.unlocated = e'.unlocated := by
  rw [← Expr.polish_eq_iff, lower_eq_blocks, lower_eq_blocks]
  constructor
  · intro h
    have hlines : e.polish.flatMap t.entryCode.block ++ t.epilogue.lines =
        e'.polish.flatMap t.entryCode.block ++ t.epilogue.lines := by
      injection h with h
      injection h with _ h
      injection h with h _
      injection h
    exact t.entryCode.flatMap_block_injective (List.append_cancel_right hlines)
  · intro h
    rw [h]

end Target

namespace Listing

theorem unlines_cons (line : Text) (lines : List Text) :
    unlines (line :: lines) = line ++ Text.newline :: unlines lines := by
  have hnewline : Text.ofString "\n" = [Text.newline] := by decide
  rw [unlines, List.map_cons, List.flatten_cons, hnewline, List.append_assoc]
  rfl

theorem splitOn_unlines {lines : List Text} (h : ∀ line ∈ lines, line.OneLine) :
    Text.splitOn Text.newline (unlines lines) = lines ++ [[]] := by
  induction lines with
  | nil => rfl
  | cons line lines ih =>
      have hrest := ih fun other hother => h other (List.mem_cons_of_mem line hother)
      rw [unlines_cons, Text.splitOn_append_cons (h line List.mem_cons_self), hrest]
      rfl

theorem oneLine_headerLines (t : Target) : ∀ line ∈ headerLines t, line.OneLine := by
  cases t <;> decide

/-- Listings of the same text have the same instructions. -/
theorem lines_eq_of_unlines_eq {t : Target} {lines lines' : List Line} {texts texts' : List Text}
    (h : List.Forall₂ (LineSyntax t.arch) lines texts)
    (h' : List.Forall₂ (LineSyntax t.arch) lines' texts')
    (heq : unlines (headerLines t ++ texts) = unlines (headerLines t ++ texts')) :
    lines = lines' := by
  have hsplit := congrArg (Text.splitOn Text.newline) heq
  rw [splitOn_unlines (List.forall_mem_append.mpr ⟨oneLine_headerLines t, oneLine_of_mem h⟩),
    splitOn_unlines (List.forall_mem_append.mpr ⟨oneLine_headerLines t, oneLine_of_mem h'⟩)]
    at hsplit
  have htexts := List.append_cancel_left (List.append_cancel_right hsplit)
  have hdecode := map_line? h
  rw [htexts, map_line? h'] at hdecode
  exact ((List.map_inj_right fun _ _ => Option.some.inj).mp hdecode).symm

end Listing

open Listing

/-- On every target all expressions have a listing. The texts of two of them are
the same exactly if the expressions are, up to locations. -/
theorem render_eq_iff_unlocated_eq (t : Target) (e e' : Expr) :
    ∃ p p' text text',
      t.lower e = .ok p ∧ render t p = .ok text ∧
      t.lower e' = .ok p' ∧ render t p' = .ok text' ∧
      (text = text' ↔ e.unlocated = e'.unlocated) := by
  obtain ⟨c, hlower, hwritable⟩ := t.lower_writable e
  obtain ⟨c', hlower', hwritable'⟩ := t.lower_writable e'
  obtain ⟨texts, htexts⟩ := hwritable.exists_texts
  obtain ⟨texts', htexts'⟩ := hwritable'.exists_texts
  have hrender := render_main htexts
  have hrender' := render_main htexts'
  refine ⟨_, _, _, _, hlower, hrender, hlower', hrender', ?_⟩
  rw [← t.lower_eq_iff, hlower, hlower']
  constructor
  · intro htext
    rw [lines_eq_of_unlines_eq htexts htexts' htext]
  · intro hprogram
    rw [Except.ok.inj hprogram, hrender'] at hrender
    exact (Except.ok.inj hrender).symm

end ArithAsm
