import ArithAsm.Proofs.Decoding
import ArithAsm.Proofs.Lowering.AArch64

/-!
Every program that is generated for an expression can be written down: all its
lines are instructions in the syntax of the architecture. The listing is a
header and one line for each instruction, and the instructions can be decoded
from it.
-/

namespace ArithAsm

namespace Listing

/-- All lines of the code are in the syntax of the architecture. -/
def Writable (arch : Arch) (c : Code) : Prop :=
  ∀ x ∈ c, ∃ text, LineSyntax arch x.line text

theorem Writable.nil (arch : Arch) : Writable arch [] :=
  fun _ hx => absurd hx List.not_mem_nil

theorem Writable.cons {arch : Arch} {x : Emitted} {c : Code} {text : Text}
    (hx : LineSyntax arch x.line text) (hc : Writable arch c) : Writable arch (x :: c) := by
  intro y hy
  rcases List.mem_cons.mp hy with rfl | hy
  · exact ⟨text, hx⟩
  · exact hc y hy

theorem Writable.append {arch : Arch} {c d : Code} (hc : Writable arch c)
    (hd : Writable arch d) : Writable arch (c ++ d) := by
  intro x hx
  rcases List.mem_append.mp hx with hx | hx
  · exact hc x hx
  · exact hd x hx

end Listing

open Listing

namespace X86

theorem rax_written : OperandSyntax .x86_64 rax "%rax" :=
  .x86Register (by decide)

theorem rdi_written : OperandSyntax .x86_64 rdi "%rdi" :=
  .x86Register (by decide)

theorem al_written : OperandSyntax .x86_64 al "%al" :=
  .x86Register (by decide)

theorem writable_pushNumber (value : Int64) : Writable .x86_64 (pushNumber value) := by
  unfold pushNumber
  split
  · exact .cons (.instr1 (by decide) (.x86Immediate value)) (.nil _)
  · exact .cons (.instr2 (by decide) (.x86Immediate value) rax_written)
      (.cons (.instr1 (by decide) rax_written) (.nil _))

theorem writable_operation (op : Operator) : Writable .x86_64 ((operation op).map .plain) := by
  have hsetter : Decoder.IsName (setter op) := by
    cases op <;> decide
  have hcompare : Writable .x86_64 ((compare op).map .plain) :=
    .cons (.instr2 (by decide) rdi_written rax_written)
      (.cons (.instr1 hsetter al_written)
        (.cons (.instr2 (by decide) al_written rax_written) (.nil _)))
  cases op with
  | add | sub | mul => exact .cons (.instr2 (by decide) rdi_written rax_written) (.nil _)
  | div => exact .cons (.instr0 (by decide)) (.cons (.instr1 (by decide) rdi_written) (.nil _))
  | _ => exact hcompare

theorem writable_expression (e : Expr) : Writable .x86_64 (expression e) := by
  induction e with
  | number loc n => exact writable_pushNumber n.toInt64
  | binary loc op l r ihl ihr =>
      have hpops : Writable .x86_64 [popq rdi, popq rax] :=
        .cons (.instr1 (by decide) rdi_written) (.cons (.instr1 (by decide) rax_written) (.nil _))
      have hpush : Writable .x86_64 [pushq rax] :=
        .cons (.instr1 (by decide) rax_written) (.nil _)
      exact (ihl.append ihr).append ((hpops.append (writable_operation op)).append hpush)

theorem writable_epilogue : Writable .x86_64 epilogue :=
  .cons (.instr1 (by decide) rax_written) (.cons (.instr0 (by decide)) (.nil _))

end X86

namespace AArch64

theorem x0_written : OperandSyntax .aarch64 x0 "x0" :=
  .armRegister (by decide)

theorem x1_written : OperandSyntax .aarch64 x1 "x1" :=
  .armRegister (by decide)

theorem writable_loadImmediate (value : UInt64) :
    Writable .aarch64 ((loadImmediate "x0" value).map .plain) := by
  -- a shift by zero has no text: the three shifts are positive
  have hmovk : ∀ bit ∈ [16, 32, 48],
      ∃ text, LineSyntax .aarch64 (.instr3 "movk" x0 (chunk value bit) (.shift bit)) text := by
    intro bit hbit
    have hne : (bit : Int) ≠ 0 := by
      rintro h
      obtain rfl : bit = 0 := by omega
      exact absurd hbit (by decide)
    exact ⟨_, .instr3 (by decide) x0_written (.armImmediate _) (.armShift hne)⟩
  refine .cons (.instr2 (by decide) x0_written (.armImmediate _)) ?_
  intro x hx
  obtain ⟨l, hl, rfl⟩ := List.mem_map.mp hx
  obtain ⟨bit, hbit, rfl⟩ := List.mem_map.mp hl
  exact hmovk bit (List.mem_filter.mp hbit).1

theorem writable_operation (op : Operator) : Writable .aarch64 ((operation op).map .plain) := by
  have hcondition : Decoder.IsName (condition op) := by
    cases op <;> decide
  have hcompare : Writable .aarch64 ((compare op).map .plain) :=
    .cons (.instr2 (by decide) x0_written x1_written)
      (.cons (.instr2 (by decide) x0_written (.armRegister hcondition)) (.nil _))
  cases op with
  | add | sub | mul | div =>
      exact .cons (.instr3 (by decide) x0_written x0_written x1_written) (.nil _)
  | _ => exact hcompare

theorem writable_push : Writable .aarch64 [push x0] := by
  have hsp : Decoder.IsName "sp" := by decide
  exact .cons (.instr2 (by decide) x0_written (.armPreIndex hsp (-16))) (.nil _)

theorem writable_pop {reg : Operand} {text : Text} (h : OperandSyntax .aarch64 reg text) :
    Writable .aarch64 [pop reg] := by
  have hsp : Decoder.IsName "sp" := by decide
  exact .cons (.instr2 (by decide) h (.armPostIndex hsp 16)) (.nil _)

theorem writable_expression (e : Expr) : Writable .aarch64 (expression e) := by
  induction e with
  | number loc n => exact (writable_loadImmediate n).append writable_push
  | binary loc op l r ihl ihr =>
      have hpops : Writable .aarch64 [pop x1, pop x0] :=
        (writable_pop x1_written).append (writable_pop x0_written)
      exact (ihl.append ihr).append ((hpops.append (writable_operation op)).append writable_push)

theorem writable_epilogue : Writable .aarch64 epilogue :=
  (writable_pop x0_written).append (.cons (.instr0 (by decide)) (.nil _))

end AArch64

theorem Target.lower_eq_of_arch {t t' : Target} (h : t'.arch = t.arch) (e : Expr) :
    t'.lower e = t.lower e := by
  cases t <;> cases t' <;> simp_all [Target.arch, Target.lower]

/-- The program of an expression is a single function, in the syntax of the
architecture. -/
theorem Target.lower_writable (t : Target) (e : Expr) :
    ∃ c, t.lower e = .ok ⟨t.arch, [⟨"main", Code.lines c⟩]⟩ ∧ Writable t.arch c := by
  refine ⟨t.emitted e, t.lower_eq_program e, ?_⟩
  cases t with
  | x86_64Linux => exact (X86.writable_expression e).append X86.writable_epilogue
  | aarch64Linux | aarch64Darwin =>
      exact (AArch64.writable_expression e).append AArch64.writable_epilogue

namespace Listing

theorem Writable.exists_texts {arch : Arch} {c : Code} (h : Writable arch c) :
    ∃ texts, List.Forall₂ (LineSyntax arch) c.lines texts := by
  induction c with
  | nil => exact ⟨[], .nil⟩
  | cons x c ih =>
      obtain ⟨text, htext⟩ := h x List.mem_cons_self
      obtain ⟨texts, htexts⟩ := ih fun y hy => h y (List.mem_cons_of_mem x hy)
      exact ⟨text :: texts, .cons htext htexts⟩

/-- The lines of a text, each of them with a newline after it. -/
def unlines (lines : List Text) : Text :=
  (lines.map (· ++ Text.ofString "\n")).flatten

def headerLines (t : Target) : List Text :=
  match t with
  | .x86_64Linux => [".text", ".globl main", "main:"]
  | .aarch64Linux => [".globl main", ".p2align 2", "main:"]
  | .aarch64Darwin => [".globl _main", ".p2align 2", "_main:"]

theorem unlines_headerLines (t : Target) : unlines (headerLines t) = header t "main" := by
  cases t <;> decide

section Body

variable {lines : List Line} {texts : List Text}

theorem render_main {t : Target} (h : List.Forall₂ (LineSyntax t.arch) lines texts) :
    render t ⟨t.arch, [⟨"main", lines⟩]⟩ = .ok (unlines (headerLines t ++ texts)) := by
  have hlines : lines.mapM (lineText t) = .ok (texts.map (· ++ "\n")) := by
    apply Result.mapM_eq_ok
    rw [List.forall₂_map_right_iff]
    exact h.imp fun _ _ hsyntax => hsyntax.lineText_eq
  simp [render, functionText, hlines, List.mapM_cons, unlines, ← unlines_headerLines]

theorem map_line? {arch : Arch} (h : List.Forall₂ (LineSyntax arch) lines texts) :
    texts.map (Decoder.line? arch) = lines.map some := by
  induction h with
  | nil => rfl
  | cons hline _ ih => simp [hline.line?_eq, ih]

theorem oneLine_of_mem {arch : Arch} (h : List.Forall₂ (LineSyntax arch) lines texts) :
    ∀ text ∈ texts, text.OneLine := by
  induction h with
  | nil => exact fun _ h => absurd h List.not_mem_nil
  | cons hline _ ih => exact List.forall_mem_cons.mpr ⟨hline.oneLine, ih⟩

end Body

end Listing

/-- The program of an expression has a listing on its target. -/
theorem Target.render_lower {t : Target} {e : Expr} {p : Program} (h : t.lower e = .ok p) :
    ∃ text, render t p = .ok text := by
  obtain ⟨c, hlower, hwritable⟩ := t.lower_writable e
  obtain ⟨texts, htexts⟩ := hwritable.exists_texts
  obtain rfl := Except.ok.inj (hlower.symm.trans h)
  exact ⟨_, render_main htexts⟩

/-- A listing is the header of its target and then one line for each instruction.
Decoding these lines gives back the instructions, with all their operands. On
targets of one architecture the lines after the header are the same. -/
theorem render_lower_decodes (t : Target) (e : Expr) :
    ∃ code body,
      t.lower e = .ok ⟨t.arch, [⟨"main", code⟩]⟩ ∧
      render t ⟨t.arch, [⟨"main", code⟩]⟩ = .ok (unlines (headerLines t ++ body)) ∧
      (∀ line ∈ body, line.OneLine) ∧
      body.map (Decoder.line? t.arch) = code.map some ∧
      ∀ t' : Target, t'.arch = t.arch →
        t'.lower e = t.lower e ∧
        render t' ⟨t.arch, [⟨"main", code⟩]⟩ = .ok (unlines (headerLines t' ++ body)) := by
  obtain ⟨c, hlower, hwritable⟩ := t.lower_writable e
  obtain ⟨texts, htexts⟩ := hwritable.exists_texts
  refine ⟨c.lines, texts, hlower, render_main htexts, oneLine_of_mem htexts, map_line? htexts, ?_⟩
  intro t' harch
  refine ⟨Target.lower_eq_of_arch harch e, ?_⟩
  rw [← harch] at htexts ⊢
  exact render_main htexts

/-- A division whose operands take all four slices of a word and one of them. -/
def wideQuotient : Expr :=
  .binary .start .div (.number .start 18446744073709551615) (.number .start 7)

theorem render_wideQuotient_decodes :
    Target.aarch64Darwin.arch = Target.aarch64Linux.arch ∧
      ∃ code body,
        Target.aarch64Linux.lower wideQuotient = .ok ⟨.aarch64, [⟨"main", code⟩]⟩ ∧
        render .aarch64Linux ⟨.aarch64, [⟨"main", code⟩]⟩ =
          .ok (unlines (headerLines .aarch64Linux ++ body)) ∧
        render .aarch64Darwin ⟨.aarch64, [⟨"main", code⟩]⟩ =
          .ok (unlines (headerLines .aarch64Darwin ++ body)) ∧
        body.map (Decoder.line? .aarch64) = code.map some := by
  obtain ⟨code, body, hlower, hrender, _, hdecode, hsame⟩ :=
    render_lower_decodes .aarch64Linux wideQuotient
  exact ⟨rfl, code, body, hlower, hrender, (hsame .aarch64Darwin rfl).2, hdecode⟩

end ArithAsm
