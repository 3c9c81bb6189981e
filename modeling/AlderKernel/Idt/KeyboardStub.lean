import AlderKernel.Machine.I386

/-!
# The keyboard interrupt stub

`keyboard_stub` of `idt_asm.asm`, executed instruction by instruction from the
moment the processor takes IRQ1. The stub acknowledges the interrupt after
`popa`, so the byte it sends to the interrupt controller stays in `al`.
-/

namespace AlderKernel.Idt

open Machine

/-- Stack bytes in use when `keyboard_handler` is called: the three words of the
interrupt and the eight words of `pusha`. -/
def stubFrame : ℕ := 44

/-- The instructions that `keyboard_stub` is made of. -/
inductive Instr where
  | pusha
  | call (callee : CdeclCallee stubFrame) (returnAddress : U32)
  | popa
  | movAl (imm : U8)
  | outAl (port : U16)
  | iretd

/-- Execute one instruction. -/
def Instr.exec : Instr → Cpu → Cpu
  | .pusha, s => s.pusha
  | .call callee returnAddress, s => s.call callee returnAddress
  | .popa, s => s.popa
  | .movAl imm, s => s.movAl imm
  | .outAl port, s => s.outAl port
  | .iretd, s => s.iretd

/-- `keyboard_stub`: the handler is any function that follows the C calling
convention, and `returnAddress` is the address behind the call. -/
def keyboardStub (keyboardHandler : CdeclCallee stubFrame) (returnAddress : U32) : List Instr :=
  [.pusha, .call keyboardHandler returnAddress, .popa, .movAl 0x20, .outAl 0x20, .iretd]

/-- The processor takes IRQ1 in state `s` and runs the stub through its `iretd`. -/
def keyboardInterrupt (keyboardHandler : CdeclCallee stubFrame) (returnAddress : U32) (s : Cpu) :
    Cpu :=
  (keyboardStub keyboardHandler returnAddress).foldl (fun s i => i.exec s) s.interrupt

section

variable (keyboardHandler : CdeclCallee stubFrame) (returnAddress : U32) (s : Cpu)

/-- After `popa` the registers are those of the interrupted code, on the
interrupt's stack frame. -/
theorem popa_after_handler :
    ((s.interrupt.pusha.call keyboardHandler returnAddress).popa).regs = s.interrupt.regs :=
  Cpu.popa_of_keepsFrame ((Cpu.call_keepsFrame _ _ _ (by decide)).mono (by decide))

/-- The three words of the interrupt survive the handler. -/
theorem interrupt_keepsFrame_handler :
    s.interrupt.KeepsFrame (s.interrupt.pusha.call keyboardHandler returnAddress).popa 12 := by
  refine ⟨congrArg Registers.esp (popa_after_handler keyboardHandler returnAddress s), ?_⟩
  intro x hx
  have hkept := Cpu.call_keepsFrame s.interrupt.pusha keyboardHandler returnAddress (by decide)
  have hcall : (s.interrupt.pusha.call keyboardHandler returnAddress).mem.byte x =
      s.interrupt.pusha.mem.byte x := by
    apply hkept.2
    rw [Cpu.pusha_esp]
    unfold Within stubFrame at *
    bv_omega
  exact hcall.trans (Cpu.pusha_above (by decide) hx)

/-- The registers after the interrupt: all as before, with `0x20` in the low
byte of `eax`. -/
theorem keyboardInterrupt_regs :
    (keyboardInterrupt keyboardHandler returnAddress s).regs =
      { s.regs with eax := s.regs.eax.extractLsb' 8 24 ++ 0x20#8 } := by
  have hregs := popa_after_handler keyboardHandler returnAddress s
  obtain ⟨-, -, -, hesp⟩ := Cpu.iretd_of_keepsFrame
    (interrupt_keepsFrame_handler keyboardHandler returnAddress s)
  simp only [Cpu.iretd, hregs] at hesp
  simp only [keyboardInterrupt, keyboardStub, List.foldl_cons, List.foldl_nil, Instr.exec,
    Cpu.movAl, Cpu.outAl, Cpu.iretd, hregs, hesp]
  rfl

/-- The interrupted code resumes where it was, with its flags, and one
end-of-interrupt byte has been sent. -/
theorem keyboardInterrupt_resumes :
    (keyboardInterrupt keyboardHandler returnAddress s).eip = s.eip ∧
      (keyboardInterrupt keyboardHandler returnAddress s).cs = s.cs ∧
      (keyboardInterrupt keyboardHandler returnAddress s).eflags = s.eflags := by
  obtain ⟨heip, hcs, hflags, -⟩ := Cpu.iretd_of_keepsFrame
    (interrupt_keepsFrame_handler keyboardHandler returnAddress s)
  exact ⟨heip, hcs, hflags⟩

/-- The keyboard interrupt gives back every general-purpose register exactly
when the interrupted code had `0x20` in `al`. -/
theorem keyboardInterrupt_transparent_iff :
    (keyboardInterrupt keyboardHandler returnAddress s).regs = s.regs ↔ s.al = 0x20#8 := by
  have hsplit : s.regs.eax.extractLsb' 8 24 ++ s.al = s.regs.eax :=
    by simpa only [Cpu.al, Nat.reduceAdd] using
      BitVec.extractLsb'_append_extractLsb' (w := 24)
  rw [keyboardInterrupt_regs]
  constructor
  · intro h
    have heax := congrArg Registers.eax h
    rw [Cpu.al, ← heax]
    exact BitVec.extractLsb'_append_eq_right
  · intro h
    rw [h] at hsplit
    rw [hsplit]

end

/-- A handler that returns at once, as `keyboard_handler` does in effect on a
key release that it ignores. -/
def returnAtOnce : CdeclCallee stubFrame where
  run s := { s with regs := { s.regs with esp := s.regs.esp + 4#32 } }
  esp_run _ := rfl
  ebx_run _ := rfl
  ebp_run _ := rfl
  esi_run _ := rfl
  edi_run _ := rfl
  stack_run _ _ _ := rfl

/-- Code interrupted with a zero in `eax` finds `0x20` there afterwards. -/
theorem keyboardInterrupt_clobbers_eax :
    ¬ ∀ (keyboardHandler : CdeclCallee stubFrame) (returnAddress : U32) (s : Cpu),
      (keyboardInterrupt keyboardHandler returnAddress s).regs = s.regs := by
  intro h
  have hclear := h returnAtOnce 0x100000
    { regs := ⟨0, 0, 0, 0, 0x9000, 0, 0, 0⟩, eip := 0x100200, cs := 0x08, eflags := 0x202
      mem := ⟨fun _ => 0⟩, ports := [] }
  rw [keyboardInterrupt_regs] at hclear
  exact absurd (congrArg Registers.eax hclear) (by decide)

end AlderKernel.Idt
