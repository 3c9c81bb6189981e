import AlderKernel.Machine.I386
import AlderKernel.Shell.ScreenPage

/-!
# The exception stubs

The stubs `isr0` to `isr31` of `idt_asm.asm`, with `isr_common_stub` and the handler
`isr_exception_handler` of `idt.c`. The processor pushes an error code for some of the
vectors only; the stubs make up for it, so that the handler finds the vector and the error code
as its arguments for each of them.
-/

namespace AlderKernel.Idt

open Machine Drivers Shell

/-- The vectors for which the processor pushes an error code. -/
def pushesErrorCode (vector : ℕ) : Bool := vector ∈ [8, 10, 11, 12, 13, 14, 17]

/-- The processor takes an exception: it saves what an interrupt saves, and pushes the error code
on top when the vector has one. -/
def takeException (vector : ℕ) (code : U32) (s : Cpu) : Cpu :=
  if pushesErrorCode vector then s.interrupt.push code else s.interrupt

/-- The instructions of the stubs before the call of the handler, and those behind it. -/
inductive StubInstr where
  | pushDword (imm : U32)
  | pusha
  | movEaxStack (offset : U32)
  | movEbxStack (offset : U32)
  | pushEbx
  | pushEax
  | addEsp (imm : U32)
  | popa
  | iretd

/-- Execute one instruction. What `add` does to the flags is not seen: `iretd` reloads them. -/
def StubInstr.exec : StubInstr → Cpu → Cpu
  | .pushDword imm, s => s.push imm
  | .pusha, s => s.pusha
  | .movEaxStack offset, s =>
    { s with regs := { s.regs with eax := s.mem.load32 (s.regs.esp + offset) } }
  | .movEbxStack offset, s =>
    { s with regs := { s.regs with ebx := s.mem.load32 (s.regs.esp + offset) } }
  | .pushEbx, s => s.push s.regs.ebx
  | .pushEax, s => s.push s.regs.eax
  | .addEsp imm, s => { s with regs := { s.regs with esp := s.regs.esp + imm } }
  | .popa, s => s.popa
  | .iretd, s => s.iretd

/-- Execute instructions one after the other. -/
def execAll (is : List StubInstr) (s : Cpu) : Cpu := is.foldl (fun s i => i.exec s) s

/-- The macro `ISR_NOERR`, up to its jump. -/
def isrNoErr (vector : U32) : List StubInstr := [.pushDword 0, .pushDword vector]

/-- The macro `ISR_ERR`, up to its jump. -/
def isrErr (vector : U32) : List StubInstr := [.pushDword vector]

/-- `isr_stub_table`: the stubs in the order of their vectors. -/
def isrStubs : List (List StubInstr) :=
  [isrNoErr 0, isrNoErr 1, isrNoErr 2, isrNoErr 3, isrNoErr 4, isrNoErr 5, isrNoErr 6, isrNoErr 7,
   isrErr 8, isrNoErr 9, isrErr 10, isrErr 11, isrErr 12, isrErr 13, isrErr 14, isrNoErr 15,
   isrNoErr 16, isrErr 17, isrNoErr 18, isrNoErr 19, isrNoErr 20, isrNoErr 21, isrNoErr 22,
   isrNoErr 23, isrNoErr 24, isrNoErr 25, isrNoErr 26, isrNoErr 27, isrNoErr 28, isrNoErr 29,
   isrNoErr 30, isrNoErr 31]

/-- `isr_common_stub` up to its call. -/
def isrCommonStub : List StubInstr :=
  [.pusha, .movEaxStack 32#32, .movEbxStack 36#32, .pushEbx, .pushEax]

/-- `isr_common_stub` behind its call. -/
def isrCommonStubEnd : List StubInstr := [.addEsp 8#32, .popa, .addEsp 8#32, .iretd]

/-- The state in which `isr_exception_handler` is entered after an exception: the stub of the
vector has run, and `call` has pushed its return address. -/
def handlerEntry (vector : ℕ) (code returnAddress : U32) (s : Cpu) : Cpu :=
  (execAll isrCommonStub (execAll (isrStubs.getD vector []) (takeException vector code s))).push
    returnAddress

/-- The argument with the given index of a function that was just entered. -/
def stackArg (s : Cpu) (i : ℕ) : U32 := s.mem.load32 (s.regs.esp + BitVec.ofNat 32 (4 + 4 * i))

/-- `isr_exception_handler` up to `cli` and the loop around `hlt`, from which it does not return:
what it prints. -/
def isrExceptionHandler (vector errorCode : U32) : List PrintCall :=
  [.text (chars "\nUnhandled CPU exception: "), .uint vector, .text (chars " (error code: "),
   .uint errorCode, .text (chars ")\nSystem halted.\n")]

/-- The stack after the pushes of the processor and of the stub: the vector on top, then an error
code, then what an interrupt saves. -/
def exceptionFrame (vector code : U32) (s : Cpu) : Cpu := (s.interrupt.push code).push vector

/-- A function with two word arguments that returns, and that keeps what its caller has on the
stack behind the arguments. All its other effects are free. -/
structure ReturningHandler where
  /-- From the entry, with the return address on top of the stack, to just after `ret`. -/
  run : Cpu → Cpu
  esp_run : ∀ s, (run s).regs.esp = s.regs.esp + 4#32
  stack_run : ∀ s x, Within (s.regs.esp + 12#32) 52 x → (run s).mem.byte x = s.mem.byte x

/-- The exception with a handler that returns: the stub goes on to its `iretd`. -/
def exceptionReturn (handler : ReturningHandler) (vector : ℕ) (code returnAddress : U32) (s : Cpu) :
    Cpu :=
  execAll isrCommonStubEnd (handler.run (handlerEntry vector code returnAddress s))

section

variable {vector : ℕ} {code returnAddress : U32} {s : Cpu}

/-- The code that the handler is to see. -/
def seenCode (vector : ℕ) (code : U32) : U32 := if pushesErrorCode vector then code else 0#32

/-- The stubs level out what the processor does: the stack is the same for both kinds of vector. -/
theorem exec_isrStub (hv : vector < 32) (code : U32) (s : Cpu) :
    execAll (isrStubs.getD vector []) (takeException vector code s) =
      exceptionFrame (BitVec.ofNat 32 vector) (seenCode vector code) s := by
  interval_cases vector <;> rfl

/-- The pushes of processor and stub change no register but the stack pointer. -/
theorem exceptionFrame_regs (v c : U32) (s : Cpu) :
    (exceptionFrame v c s).regs = { s.regs with esp := s.regs.esp - 20#32 } := by
  simp only [exceptionFrame, Cpu.interrupt, Cpu.push, BitVec.sub_sub, BitVec.reduceAdd]

/-- The frame takes five words of the stack. -/
theorem exceptionFrame_esp (v c : U32) (s : Cpu) :
    (exceptionFrame v c s).regs.esp = s.regs.esp - 20#32 := by
  rw [exceptionFrame_regs]

/-- The two words on top of what an interrupt saves. -/
theorem exceptionFrame_saved (v c : U32) (s : Cpu) :
    (exceptionFrame v c s).mem.load32 (exceptionFrame v c s).regs.esp = v ∧
      (exceptionFrame v c s).mem.load32 ((exceptionFrame v c s).regs.esp + 4#32) = c := by
  have hnext : (s.interrupt.push c).regs.esp - 4#32 + 4#32 = (s.interrupt.push c).regs.esp := by
    bv_omega
  have hapart : Apart ((s.interrupt.push c).regs.esp - 4#32) 4 (s.interrupt.push c).regs.esp 4 := by
    unfold Apart
    bv_omega
  constructor
  · exact Memory.load32_store32_self _ _ _
  · calc (exceptionFrame v c s).mem.load32 ((exceptionFrame v c s).regs.esp + 4#32)
        = (exceptionFrame v c s).mem.load32 (s.interrupt.push c).regs.esp :=
          congrArg (exceptionFrame v c s).mem.load32 hnext
      _ = (s.interrupt.push c).mem.load32 (s.interrupt.push c).regs.esp :=
          Memory.load32_store32_of_apart hapart
      _ = c := Memory.load32_store32_self _ _ _

/-- A push leaves the memory from the stack pointer on alone. -/
theorem byte_push {v x : U32} {n : ℕ} (hn : n + 4 ≤ 2 ^ 32) (hx : Within s.regs.esp n x) :
    (s.push v).mem.byte x = s.mem.byte x := by
  apply Memory.byte_store32_of_not_within
  unfold Within at *
  bv_omega

/-- What was on the stack is four bytes further up after a push. -/
theorem within_push {q : Cpu} {v x : U32} {n : ℕ} (hx : Within q.regs.esp n x) :
    Within (q.push v).regs.esp (n + 4) x := by
  unfold Within at *
  simp only [Cpu.push]
  bv_omega

/-- `isr_common_stub` reloads the vector and the code from below the saved registers. -/
theorem exec_isrCommonStub (v c : U32) (s : Cpu) :
    execAll isrCommonStub (exceptionFrame v c s) =
      (({ (exceptionFrame v c s).pusha with
          regs := { (exceptionFrame v c s).pusha.regs with eax := v, ebx := c } }).push
        c).push v := by
  obtain ⟨hvector, hcode⟩ := exceptionFrame_saved v c s
  have hload (k : ℕ) (hk : k + 4 ≤ 8) :
      (exceptionFrame v c s).pusha.mem.load32
          ((exceptionFrame v c s).pusha.regs.esp + BitVec.ofNat 32 (32 + k)) =
        (exceptionFrame v c s).mem.load32
          ((exceptionFrame v c s).regs.esp + BitVec.ofNat 32 k) := by
    have haddr : (exceptionFrame v c s).pusha.regs.esp + BitVec.ofNat 32 (32 + k) =
        (exceptionFrame v c s).regs.esp + BitVec.ofNat 32 k := by
      rw [Cpu.pusha_esp]
      bv_omega
    rw [haddr]
    refine Memory.load32_congr fun x hx => Cpu.pusha_above (n := 8) (by decide) ?_
    unfold Within at *
    bv_omega
  have heax : (exceptionFrame v c s).pusha.mem.load32
      ((exceptionFrame v c s).pusha.regs.esp + 32#32) = v := by
    have h := hload 0 (by decide)
    rw [BitVec.add_zero] at h
    exact h.trans hvector
  have hebx : (exceptionFrame v c s).pusha.mem.load32
      ((exceptionFrame v c s).pusha.regs.esp + 36#32) = c :=
    (hload 4 (by decide)).trans hcode
  simp only [execAll, isrCommonStub, List.foldl_cons, List.foldl_nil, StubInstr.exec]
  rw [heax, hebx]
  rfl

/-- The state in which the common stub makes its call, without the two arguments. -/
def beforeCall (v c : U32) (s : Cpu) : Cpu :=
  { (exceptionFrame v c s).pusha with
    regs := { (exceptionFrame v c s).pusha.regs with eax := v, ebx := c } }

/-- The common stub has 52 bytes on the stack when it makes its call. -/
theorem beforeCall_esp (v c : U32) (s : Cpu) :
    (beforeCall v c s).regs.esp = s.regs.esp - 52#32 := by
  simp only [beforeCall, Cpu.pusha_esp, exceptionFrame_esp, BitVec.sub_sub]
  rfl

/-- The handler is entered with two arguments and a return address on top of the saved registers. -/
theorem handlerEntry_eq (hv : vector < 32) (code returnAddress : U32) (s : Cpu) :
    handlerEntry vector code returnAddress s =
      (((beforeCall (BitVec.ofNat 32 vector) (seenCode vector code) s).push
        (seenCode vector code)).push (BitVec.ofNat 32 vector)).push returnAddress := by
  unfold handlerEntry
  rw [exec_isrStub hv, exec_isrCommonStub]
  rfl

/-- Two words pushed before a return address are the arguments of the function. -/
theorem stackArg_pushes (q : Cpu) (v c r : U32) :
    stackArg (((q.push c).push v).push r) 0 = v ∧ stackArg (((q.push c).push v).push r) 1 = c := by
  have hfirst : (((q.push c).push v).push r).regs.esp + 4#32 = ((q.push c).push v).regs.esp := by
    simp only [Cpu.push]
    bv_omega
  have hsecond : (((q.push c).push v).push r).regs.esp + 8#32 = (q.push c).regs.esp := by
    simp only [Cpu.push]
    bv_omega
  have hkept (v : U32) (q : Cpu) : (q.push v).mem.load32 q.regs.esp = q.mem.load32 q.regs.esp :=
    Memory.load32_congr fun _ hx => byte_push (by decide) hx
  constructor
  · show (((q.push c).push v).push r).mem.load32 ((((q.push c).push v).push r).regs.esp + 4#32) = v
    rw [hfirst, hkept]
    exact Memory.load32_store32_self _ _ _
  · show (((q.push c).push v).push r).mem.load32 ((((q.push c).push v).push r).regs.esp + 8#32) = c
    have hover : Apart (((q.push c).push v).regs.esp - 4#32) 4 (q.push c).regs.esp 4 := by
      unfold Apart
      simp only [Cpu.push]
      bv_omega
    rw [hsecond]
    calc (((q.push c).push v).push r).mem.load32 (q.push c).regs.esp
        = ((q.push c).push v).mem.load32 (q.push c).regs.esp :=
          Memory.load32_store32_of_apart hover
      _ = (q.push c).mem.load32 (q.push c).regs.esp := hkept _ _
      _ = c := Memory.load32_store32_self _ _ _

/-- Where the stack of the handler ends. -/
theorem handlerEntry_esp (hv : vector < 32) :
    (handlerEntry vector code returnAddress s).regs.esp = s.regs.esp - 64#32 := by
  rw [handlerEntry_eq hv]
  simp only [Cpu.push, beforeCall, Cpu.pusha_esp, exceptionFrame_esp, BitVec.sub_sub]
  rfl

/-- The handler's own stack begins below what the common stub has saved. -/
theorem byte_handlerEntry {x : U32} {n : ℕ} (hv : vector < 32) (hn : n + 12 ≤ 2 ^ 32)
    (hx : Within (beforeCall (BitVec.ofNat 32 vector) (seenCode vector code) s).regs.esp n x) :
    (handlerEntry vector code returnAddress s).mem.byte x =
      (beforeCall (BitVec.ofNat 32 vector) (seenCode vector code) s).mem.byte x := by
  rw [handlerEntry_eq hv, byte_push (n := n + 8) (by omega) (within_push (within_push hx)),
    byte_push (n := n + 4) (by omega) (within_push hx), byte_push (by omega) hx]

/-- What an interrupt saved is still there, above the pushes of the stub. -/
theorem byte_beforeCall {v c x : U32} {n : ℕ} (hn : n + 40 ≤ 2 ^ 32)
    (hx : Within s.interrupt.regs.esp n x) :
    (beforeCall v c s).mem.byte x = s.interrupt.mem.byte x := by
  have hpushed : Within (exceptionFrame v c s).regs.esp (n + 8) x := by
    have hesp : s.interrupt.regs.esp = s.regs.esp - 12#32 := by
      simp only [Cpu.interrupt, Cpu.push, BitVec.sub_sub]
      rfl
    rw [exceptionFrame_esp]
    rw [hesp] at hx
    unfold Within at *
    bv_omega
  have hcode : Within (s.interrupt.push c).regs.esp (n + 4) x := by
    unfold Within at *
    simp only [Cpu.push] at *
    bv_omega
  calc (beforeCall v c s).mem.byte x
      = (exceptionFrame v c s).mem.byte x := Cpu.pusha_above (by omega) hpushed
    _ = (s.interrupt.push c).mem.byte x := byte_push (by omega) hcode
    _ = s.interrupt.mem.byte x := byte_push (by omega) hx

/-- What the stub has on the stack at the call survives a handler that returns. -/
theorem byte_handlerRun {x : U32} (handler : ReturningHandler) (hv : vector < 32)
    (hx : Within (beforeCall (BitVec.ofNat 32 vector) (seenCode vector code) s).regs.esp 52 x) :
    (handler.run (handlerEntry vector code returnAddress s)).mem.byte x =
      (beforeCall (BitVec.ofNat 32 vector) (seenCode vector code) s).mem.byte x := by
  have hesp : (handlerEntry vector code returnAddress s).regs.esp + 12#32 =
      (beforeCall (BitVec.ofNat 32 vector) (seenCode vector code) s).regs.esp := by
    rw [handlerEntry_eq hv]
    simp only [Cpu.push]
    bv_omega
  rw [handler.stack_run _ _ (by rwa [hesp]), byte_handlerEntry hv (by decide) hx]

/-- With a handler that returns, the stub would give back every register, the place and the
flags of the interrupted code. -/
theorem exceptionReturn_resumes (handler : ReturningHandler) (hv : vector < 32)
    (code returnAddress : U32) (s : Cpu) :
    let t := exceptionReturn handler vector code returnAddress s
    t.regs = s.regs ∧ t.eip = s.eip ∧ t.cs = s.cs ∧ t.eflags = s.eflags := by
  intro t
  set frame := exceptionFrame (BitVec.ofNat 32 vector) (seenCode vector code) s with hframe
  have hframeEsp : frame.regs.esp = s.regs.esp - 20#32 := exceptionFrame_esp _ _ _
  set popped := StubInstr.exec (.addEsp 8#32)
    (handler.run (handlerEntry vector code returnAddress s)) with hpopped
  have hesp : popped.regs.esp = s.regs.esp - 52#32 := by
    simp only [hpopped, StubInstr.exec, handler.esp_run, handlerEntry_esp hv]
    bv_omega
  have hsaved : frame.pusha.KeepsFrame popped 32 := by
    constructor
    · rw [hesp, Cpu.pusha_esp, hframeEsp, BitVec.sub_sub]
      rfl
    · exact fun x hx => byte_handlerRun handler hv (Nat.lt_of_lt_of_le hx (by decide))
  have hregs : popped.popa.regs = frame.regs := Cpu.popa_of_keepsFrame hsaved
  set unwound := StubInstr.exec (.addEsp 8#32) popped.popa with hunwound
  have hinterrupt : s.interrupt.regs.esp = s.regs.esp - 12#32 := by
    simp only [Cpu.interrupt, Cpu.push, BitVec.sub_sub]
    rfl
  have hback : s.interrupt.KeepsFrame unwound 12 := by
    constructor
    · simp only [hunwound, StubInstr.exec, hregs, hframeEsp, hinterrupt]
      bv_omega
    · intro x hx
      have hin :
          Within (beforeCall (BitVec.ofNat 32 vector) (seenCode vector code) s).regs.esp 52 x := by
        rw [hinterrupt] at hx
        rw [beforeCall_esp]
        unfold Within at *
        bv_omega
      exact (byte_handlerRun handler hv hin).trans (byte_beforeCall (by decide) hx)
  obtain ⟨heip, hcs, hflags, hend⟩ := Cpu.iretd_of_keepsFrame hback
  refine ⟨?_, heip, hcs, hflags⟩
  have ht : t = unwound.iretd := rfl
  have hothers : unwound.regs = { s.regs with esp := unwound.regs.esp } := by
    simp only [hunwound, StubInstr.exec, hregs, hframe, exceptionFrame_regs]
  rw [ht]
  simp only [Cpu.iretd] at hend ⊢
  rw [hothers, hend]

/-- On every exception the handler is entered with the vector and the error code as its arguments,
zero standing for a code that the processor does not push, and it prints both. What the
interrupted code had on its stack is untouched. -/
theorem exception_reported (hv : vector < 32) (code returnAddress : U32) (s : Cpu) :
    let t := handlerEntry vector code returnAddress s
    (isrExceptionHandler (stackArg t 0) (stackArg t 1)).flatMap PrintCall.printed =
        chars "\nUnhandled CPU exception: " ++ decimalText vector ++ chars " (error code: " ++
          decimalText (if pushesErrorCode vector then code.toNat else 0) ++
          chars ")\nSystem halted.\n" ∧
      ∀ x, ¬ Within (s.regs.esp - 64#32) 64 x → t.mem.byte x = s.mem.byte x := by
  intro t
  have hargs := stackArg_pushes (beforeCall (BitVec.ofNat 32 vector) (seenCode vector code) s)
    (BitVec.ofNat 32 vector) (seenCode vector code) returnAddress
  rw [← handlerEntry_eq hv] at hargs
  constructor
  · have hcode : (seenCode vector code).toNat =
        if pushesErrorCode vector then code.toNat else 0 := by
      unfold seenCode
      split_ifs
      · rfl
      · rfl
    have hvector : (BitVec.ofNat 32 vector).toNat = vector := by
      rw [BitVec.toNat_ofNat]
      omega
    rw [hargs.1, hargs.2]
    simp only [isrExceptionHandler, List.flatMap_cons, List.flatMap_nil, PrintCall.printed, hcode,
      hvector, List.append_nil, List.append_assoc]
  · intro x hx
    have hlow : Within s.regs.esp (2 ^ 32 - 64) x := by
      unfold Within at *
      bv_omega
    have hinterrupt : Within s.interrupt.regs.esp (2 ^ 32 - 52) x :=
      within_push (within_push (within_push hlow))
    have hcall : Within (beforeCall (BitVec.ofNat 32 vector) (seenCode vector code) s).regs.esp
        (2 ^ 32 - 12) x := by
      have hesp : (beforeCall (BitVec.ofNat 32 vector) (seenCode vector code) s).regs.esp =
          s.regs.esp - 52#32 := beforeCall_esp _ _ _
      rw [hesp]
      unfold Within at *
      bv_omega
    rw [byte_handlerEntry hv (by decide) hcall, byte_beforeCall (by decide) hinterrupt]
    have hflags := byte_push (v := s.eflags) (by decide) hlow
    have hcs := byte_push (v := s.cs) (by decide) (within_push (v := s.eflags) hlow)
    have heip := byte_push (v := s.eip) (by decide)
      (within_push (v := s.cs) (within_push (v := s.eflags) hlow))
    exact heip.trans (hcs.trans hflags)

end

/-- Code of the kernel at which a page fault happens. -/
def faultingCpu : Cpu :=
  { regs := ⟨1, 2, 3, 4, 0x9000, 6, 7, 8⟩, eip := 0x100200, cs := 0x08, eflags := 0x202
    mem := ⟨fun _ => 0⟩, ports := [] }

/-- A page fault on a write is reported with its error code 2. -/
theorem exception_reported_pageFault :
    (isrExceptionHandler (stackArg (handlerEntry 14 2#32 0x100100#32 faultingCpu) 0)
        (stackArg (handlerEntry 14 2#32 0x100100#32 faultingCpu) 1)).flatMap PrintCall.printed =
      chars "\nUnhandled CPU exception: 14 (error code: 2)\nSystem halted.\n" := by
  have h := (exception_reported (by decide : 14 < 32) 2#32 0x100100#32 faultingCpu).1
  refine h.trans ?_
  have hfourteen : decimalText 14 = chars "14" := by simp [decimalText]; decide
  have htwo : decimalText (if pushesErrorCode 14 then (2#32).toNat else 0) = chars "2" := by
    simp [decimalText, pushesErrorCode]; decide
  rw [hfourteen, htwo]
  decide

/-- A handler that returns at once. -/
def returningHandler : ReturningHandler where
  run s := { s with regs := { s.regs with esp := s.regs.esp + 4#32, eax := 0#32 } }
  esp_run _ := rfl
  stack_run _ _ _ := rfl

/-- After a division fault and a handler that returns, the code goes on with its registers. -/
theorem exceptionReturn_resumes_divide :
    (exceptionReturn returningHandler 0 0#32 0x100100#32 faultingCpu).regs = faultingCpu.regs :=
  (exceptionReturn_resumes returningHandler (by decide : 0 < 32) 0#32 0x100100#32
    faultingCpu).1

end AlderKernel.Idt
