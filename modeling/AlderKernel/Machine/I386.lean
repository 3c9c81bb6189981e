import AlderKernel.Machine.Memory

/-!
# Stack discipline of a 32-bit x86 processor

The register file, the pushes and pops of `pusha`, `popa`, interrupt delivery
and `iretd`, and the C calling convention as a bundle of guarantees about a
callee. The two restoration lemmas say what code that keeps its caller's stack
bytes gives back. No assumption is made on the alignment or place of the stack:
`esp` may be any value and stack addresses wrap.
-/

namespace Machine

/-- The general-purpose registers. -/
@[ext]
structure Registers where
  eax : U32
  ecx : U32
  edx : U32
  ebx : U32
  esp : U32
  ebp : U32
  esi : U32
  edi : U32
  deriving DecidableEq

/-- Processor state, with the bytes sent to I/O ports so far. -/
@[ext]
structure Cpu where
  regs : Registers
  eip : U32
  cs : U32
  eflags : U32
  mem : Memory
  /-- Every `(port, byte)` written with `out`, oldest first. -/
  ports : List (U16 × U8)

namespace Cpu

/-- `push`: the stack grows downwards by one word. -/
def push (s : Cpu) (v : U32) : Cpu :=
  { s with
    regs := { s.regs with esp := s.regs.esp - 4#32 }
    mem := s.mem.store32 (s.regs.esp - 4#32) v }

/-- `pusha`: all registers, with the `esp` of before the first push. -/
def pusha (s : Cpu) : Cpu :=
  (((((((s.push s.regs.eax).push s.regs.ecx).push s.regs.edx).push s.regs.ebx).push
    s.regs.esp).push s.regs.ebp).push s.regs.esi).push s.regs.edi

/-- `popa`: reload the registers that `pusha` saved; the saved `esp` is skipped. -/
def popa (s : Cpu) : Cpu :=
  { s with
    regs :=
      { edi := s.mem.load32 s.regs.esp
        esi := s.mem.load32 (s.regs.esp + 4#32)
        ebp := s.mem.load32 (s.regs.esp + 8#32)
        ebx := s.mem.load32 (s.regs.esp + 16#32)
        edx := s.mem.load32 (s.regs.esp + 20#32)
        ecx := s.mem.load32 (s.regs.esp + 24#32)
        eax := s.mem.load32 (s.regs.esp + 28#32)
        esp := s.regs.esp + 32#32 } }

/-- Interrupt delivery without a privilege change: the processor saves the
flags, the code segment and the address of the next instruction. -/
def interrupt (s : Cpu) : Cpu := ((s.push s.eflags).push s.cs).push s.eip

/-- `iretd` to the same privilege level. -/
def iretd (s : Cpu) : Cpu :=
  { s with
    eip := s.mem.load32 s.regs.esp
    cs := s.mem.load32 (s.regs.esp + 4#32)
    eflags := s.mem.load32 (s.regs.esp + 8#32)
    regs := { s.regs with esp := s.regs.esp + 12#32 } }

/-- The low byte of `eax`. -/
def al (s : Cpu) : U8 := s.regs.eax.extractLsb' 0 8

/-- `mov al, imm8`. -/
def movAl (s : Cpu) (v : U8) : Cpu :=
  { s with regs := { s.regs with eax := s.regs.eax.extractLsb' 8 24 ++ v } }

/-- `out imm8, al`. -/
def outAl (s : Cpu) (port : U16) : Cpu := { s with ports := s.ports ++ [(port, s.al)] }

/-- The state `t` still has the `frame` stack bytes that `s` has at its stack pointer. -/
def KeepsFrame (s t : Cpu) (frame : ℕ) : Prop :=
  t.regs.esp = s.regs.esp ∧
    ∀ x, Within s.regs.esp frame x → t.mem.byte x = s.mem.byte x

/-- Words of a kept frame load as before. -/
theorem KeepsFrame.load32 {s t : Cpu} {frame : ℕ} (h : s.KeepsFrame t frame) {k : ℕ}
    (hk : k + 4 ≤ frame) (hframe : frame ≤ 2 ^ 32) :
    t.mem.load32 (t.regs.esp + BitVec.ofNat 32 k) =
      s.mem.load32 (s.regs.esp + BitVec.ofNat 32 k) := by
  rw [h.1]
  apply Memory.load32_congr
  intro x hx
  apply h.2
  unfold Within at *
  bv_omega

/-- A smaller part of a kept frame is kept. -/
theorem KeepsFrame.mono {s t : Cpu} {frame smaller : ℕ} (h : s.KeepsFrame t frame)
    (hle : smaller ≤ frame) : s.KeepsFrame t smaller :=
  ⟨h.1, fun x hx => h.2 x (Nat.lt_of_lt_of_le hx hle)⟩

/-- The memory that `pusha` leaves, with all stores relative to the old stack pointer. -/
theorem pusha_mem (s : Cpu) :
    s.pusha.mem =
      (((((((s.mem.store32 (s.regs.esp - 4#32) s.regs.eax).store32 (s.regs.esp - 8#32)
        s.regs.ecx).store32 (s.regs.esp - 12#32) s.regs.edx).store32 (s.regs.esp - 16#32)
        s.regs.ebx).store32 (s.regs.esp - 20#32) s.regs.esp).store32 (s.regs.esp - 24#32)
        s.regs.ebp).store32 (s.regs.esp - 28#32) s.regs.esi).store32 (s.regs.esp - 32#32)
        s.regs.edi := by
  simp only [pusha, push, BitVec.sub_sub]
  rfl

/-- `pusha` takes eight words of stack. -/
@[simp] theorem pusha_esp (s : Cpu) : s.pusha.regs.esp = s.regs.esp - 32#32 := by
  simp only [pusha, push, BitVec.sub_sub]
  rfl

/-- `pusha` writes only below the stack pointer. -/
theorem pusha_above {s : Cpu} {n : ℕ} {x : U32} (hn : n + 32 ≤ 2 ^ 32)
    (hx : Within s.regs.esp n x) : s.pusha.mem.byte x = s.mem.byte x := by
  have hout (i : U32) (hi : 4 ≤ i.toNat ∧ i.toNat ≤ 32) : ¬ Within (s.regs.esp - i) 4 x := by
    unfold Within at *
    bv_omega
  rw [pusha_mem]
  simp (disch := (apply hout; decide)) only [Memory.byte_store32_of_not_within]

/-- The words that `pusha` saved, at their offsets from the new stack pointer. -/
theorem pusha_saved (s : Cpu) :
    s.pusha.mem.load32 (s.pusha.regs.esp + 0#32) = s.regs.edi ∧
      s.pusha.mem.load32 (s.pusha.regs.esp + 4#32) = s.regs.esi ∧
      s.pusha.mem.load32 (s.pusha.regs.esp + 8#32) = s.regs.ebp ∧
      s.pusha.mem.load32 (s.pusha.regs.esp + 16#32) = s.regs.ebx ∧
      s.pusha.mem.load32 (s.pusha.regs.esp + 20#32) = s.regs.edx ∧
      s.pusha.mem.load32 (s.pusha.regs.esp + 24#32) = s.regs.ecx ∧
      s.pusha.mem.load32 (s.pusha.regs.esp + 28#32) = s.regs.eax := by
  have h0 : s.regs.esp - 32#32 + 0#32 = s.regs.esp - 32#32 := by bv_omega
  have h4 : s.regs.esp - 32#32 + 4#32 = s.regs.esp - 28#32 := by bv_omega
  have h8 : s.regs.esp - 32#32 + 8#32 = s.regs.esp - 24#32 := by bv_omega
  have h16 : s.regs.esp - 32#32 + 16#32 = s.regs.esp - 16#32 := by bv_omega
  have h20 : s.regs.esp - 32#32 + 20#32 = s.regs.esp - 12#32 := by bv_omega
  have h24 : s.regs.esp - 32#32 + 24#32 = s.regs.esp - 8#32 := by bv_omega
  have h28 : s.regs.esp - 32#32 + 28#32 = s.regs.esp - 4#32 := by bv_omega
  have hapart (i j : U32) (h : 4 ≤ (i - j).toNat ∧ 4 ≤ (j - i).toNat) :
      Apart (s.regs.esp - i) 4 (s.regs.esp - j) 4 := by
    unfold Apart
    bv_omega
  rw [pusha_esp, pusha_mem, h0, h4, h8, h16, h20, h24, h28]
  refine ⟨?_, ?_, ?_, ?_, ?_, ?_, ?_⟩
  all_goals
    simp (disch := (apply hapart; decide)) only [Memory.load32_store32_of_apart,
      Memory.load32_store32_self]

/-- `popa` undoes `pusha` when the code in between keeps the eight saved words. -/
theorem popa_of_keepsFrame {s t : Cpu} (h : s.pusha.KeepsFrame t 32) : t.popa.regs = s.regs := by
  have hload (k : ℕ) (hk : k + 4 ≤ 32) := h.load32 hk (by decide)
  obtain ⟨hedi, hesi, hebp, hebx, hedx, hecx, heax⟩ := pusha_saved s
  have hesp : t.regs.esp = s.regs.esp - 32#32 := by rw [h.1, pusha_esp]
  ext1
  · exact (hload 28 (by decide)).trans heax
  · exact (hload 24 (by decide)).trans hecx
  · exact (hload 20 (by decide)).trans hedx
  · exact (hload 16 (by decide)).trans hebx
  · simp only [popa, hesp]
    bv_omega
  · exact (hload 8 (by decide)).trans hebp
  · exact (hload 4 (by decide)).trans hesi
  · have hedi' := (hload 0 (by decide)).trans hedi
    rwa [BitVec.add_zero] at hedi'

/-- `iretd` resumes the interrupted code when the code in between keeps the
three saved words. -/
theorem iretd_of_keepsFrame {s t : Cpu} (h : s.interrupt.KeepsFrame t 12) :
    t.iretd.eip = s.eip ∧ t.iretd.cs = s.cs ∧ t.iretd.eflags = s.eflags ∧
      t.iretd.regs.esp = s.regs.esp := by
  have hload (k : ℕ) (hk : k + 4 ≤ 12) := h.load32 hk (by decide)
  have hesp : s.interrupt.regs.esp = s.regs.esp - 12#32 := by
    simp only [interrupt, push, BitVec.sub_sub]
    rfl
  have hmem : s.interrupt.mem = ((s.mem.store32 (s.regs.esp - 4#32) s.eflags).store32
      (s.regs.esp - 8#32) s.cs).store32 (s.regs.esp - 12#32) s.eip := by
    simp only [interrupt, push, BitVec.sub_sub]
    rfl
  have h0 : s.regs.esp - 12#32 + 0#32 = s.regs.esp - 12#32 := by bv_omega
  have h4 : s.regs.esp - 12#32 + 4#32 = s.regs.esp - 8#32 := by bv_omega
  have h8 : s.regs.esp - 12#32 + 8#32 = s.regs.esp - 4#32 := by bv_omega
  have hapart (i j : U32) (h : 4 ≤ (i - j).toNat ∧ 4 ≤ (j - i).toNat) :
      Apart (s.regs.esp - i) 4 (s.regs.esp - j) 4 := by
    unfold Apart
    bv_omega
  have heip := hload 0 (by decide)
  have hcs := hload 4 (by decide)
  have hflags := hload 8 (by decide)
  rw [hesp, hmem] at heip hcs hflags
  simp (disch := (apply hapart; decide)) only [h0, h4, h8, BitVec.add_zero,
    Memory.load32_store32_of_apart, Memory.load32_store32_self] at heip hcs hflags
  refine ⟨heip, hcs, hflags, ?_⟩
  simp only [iretd, h.1, hesp]
  bv_omega

end Cpu

/-- A function compiled for the cdecl convention and taking no stack arguments,
whose caller has `frame` bytes of its own on the stack. `run` goes from the entry
of the function, with the return address on top of the stack, to just after its
`ret`. Registers `eax`, `ecx`, `edx`, the flags, the ports and all other memory
may change in any way. -/
structure CdeclCallee (frame : ℕ) where
  run : Cpu → Cpu
  esp_run : ∀ s, (run s).regs.esp = s.regs.esp + 4#32
  ebx_run : ∀ s, (run s).regs.ebx = s.regs.ebx
  ebp_run : ∀ s, (run s).regs.ebp = s.regs.ebp
  esi_run : ∀ s, (run s).regs.esi = s.regs.esi
  edi_run : ∀ s, (run s).regs.edi = s.regs.edi
  stack_run : ∀ s x, Within (s.regs.esp + 4#32) frame x → (run s).mem.byte x = s.mem.byte x

/-- `call`: push the return address and run the callee to its return. -/
def Cpu.call {frame : ℕ} (s : Cpu) (callee : CdeclCallee frame) (returnAddress : U32) : Cpu :=
  callee.run (s.push returnAddress)

/-- A call keeps the caller's frame. -/
theorem Cpu.call_keepsFrame {frame : ℕ} (s : Cpu) (callee : CdeclCallee frame)
    (returnAddress : U32) (hframe : frame + 4 ≤ 2 ^ 32) :
    s.KeepsFrame (s.call callee returnAddress) frame := by
  have hesp : (s.push returnAddress).regs.esp + 4#32 = s.regs.esp := by
    simp only [Cpu.push]
    bv_omega
  refine ⟨(callee.esp_run _).trans hesp, fun x hx => ?_⟩
  have hkept := callee.stack_run (s.push returnAddress) x (by rwa [hesp])
  refine hkept.trans (Memory.byte_store32_of_not_within ?_)
  unfold Within at *
  bv_omega

end Machine
