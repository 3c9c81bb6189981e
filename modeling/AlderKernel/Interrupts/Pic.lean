import AlderKernel.Machine.InterruptController

/-!
# Interrupts of the running kernel

`kernel/interrupts/pic.c`, and what follows from it for every order of device requests and of the
kernel's own steps. The kernel takes an interrupt only with interrupts enabled; the gate
disables them, the stub sends its end of interrupt, and `iretd` enables them again.
-/

namespace AlderKernel.Interrupts

open Machine

/-- `pic_remap`. -/
def picRemap (p : PicPair) : PicPair :=
  let p := p.outb 0x20#16 0x11#8
  let p := p.outb 0xA0#16 0x11#8
  let p := p.outb 0x21#16 0x20#8
  let p := p.outb 0xA1#16 0x28#8
  let p := p.outb 0x21#16 0x04#8
  let p := p.outb 0xA1#16 0x02#8
  let p := p.outb 0x21#16 0x01#8
  let p := p.outb 0xA1#16 0x01#8
  let p := p.outb 0x21#16 0xFD#8
  p.outb 0xA1#16 0xFF#8

/-- Where the processor is with respect to interrupts. -/
inductive Phase where
  /-- Interrupts are disabled, before the `sti` of `kernel_start`. -/
  | starting
  /-- Interrupts are enabled. -/
  | enabled
  /-- In the handler of a vector, before the end of interrupt. -/
  | handling (vector : ℕ)
  /-- Between the end of interrupt and `iretd`. -/
  | returning
  deriving DecidableEq

/-- The system, with a history: the vectors that the processor has taken, and how many
requests of the keyboard came while none was pending. -/
structure State where
  pics : PicPair
  phase : Phase
  taken : List ℕ
  keyRequests : ℕ
  deriving DecidableEq

/-- What can happen. -/
inductive Event where
  /-- A device requests an interrupt, at any time. -/
  | request (irq : Fin 16)
  /-- `sti` in `kernel_start`. -/
  | sti
  /-- The processor takes an interrupt. -/
  | take
  /-- `out 0x20, al` of the stub, with `0x20` in `al`. -/
  | endOfInterrupt
  | iretd
  deriving DecidableEq

/-- A request of the keyboard is pending. -/
def State.keyPending (s : State) : Bool := s.pics.master.request.getLsbD 1

/-- One step, when it is possible. -/
def step (s : State) : Event → Option State
  | .request irq =>
    some { s with
      pics := s.pics.raise irq
      keyRequests := if irq = 1 ∧ s.keyPending = false then s.keyRequests + 1 else s.keyRequests }
  | .sti => if s.phase = .starting then some { s with phase := .enabled } else none
  | .take =>
    if s.phase = .enabled then
      s.pics.acknowledge.map fun r =>
        { s with pics := r.2, phase := .handling r.1, taken := s.taken ++ [r.1] }
    else none
  | .endOfInterrupt =>
    match s.phase with
    | .handling _ => some { s with pics := s.pics.outb 0x20#16 0x20#8, phase := .returning }
    | _ => none
  | .iretd => if s.phase = .returning then some { s with phase := .enabled } else none

/-- The system when `pic_remap` returns. -/
def remapped (p : PicPair) : State := ⟨picRemap p, .starting, [], 0⟩

/-- The states that the kernel can come to. -/
inductive Reachable (p : PicPair) : State → Prop
  | start : Reachable p (remapped p)
  | step {s t : State} {e : Event} (h : Reachable p s) (ht : step s e = some t) : Reachable p t

/-- What is in service on the master in a phase. -/
def Phase.inService : Phase → U8
  | .handling _ => 0x02#8
  | _ => 0#8

/-- The invariant. -/
structure Invariant (s : State) : Prop where
  masterMask : s.pics.master.mask = 0xFD#8
  masterBase : s.pics.master.vectorBase = 0x20#8
  masterControl : s.pics.master.control = 0x01#8
  masterService : s.pics.master.inService = s.phase.inService
  slaveMask : s.pics.slave.mask = 0xFF#8
  handling : ∀ v, s.phase = .handling v → v = 33
  taken : ∀ v ∈ s.taken, v = 33
  counted : s.taken.length + (if s.keyPending then 1 else 0) = s.keyRequests

/-- `pic_remap` leaves both controllers initialized, with the keyboard alone unmasked, whatever
they were before. -/
theorem picRemap_eq (p : PicPair) :
    picRemap p =
      { master := ⟨0xFD#8, 0#8, 0#8, 0x20#8, 0x04#8, 0x01#8, []⟩
        slave := ⟨0xFF#8, 0#8, 0#8, 0x28#8, 0x02#8, 0x01#8, []⟩ } := by
  simp [picRemap, PicPair.outb, Pic.outCommand, Pic.outData]

section

variable {p : PicPair} {s t : State} {lines : U8} {e : Event}

/-- Through the mask `0xFD` only input 1 is seen. -/
theorem highest_keyboard (lines : U8) :
    Pic.highest (lines &&& ~~~0xFD#8) = if lines.getLsbD 1 then some 1 else none := by
  have hbit (i : ℕ) : (lines &&& ~~~0xFD#8).getLsbD i =
      (lines.getLsbD i && (0x02#8).getLsbD i) := by
    rw [BitVec.getLsbD_and]
    rfl
  have hrange : List.range 8 = [0, 1, 2, 3, 4, 5, 6, 7] := rfl
  unfold Pic.highest
  rw [hrange]
  cases h : lines.getLsbD 1
  · simp only [List.find?_cons, List.find?_nil, hbit, h, BitVec.reduceGetLsb, Bool.and_false,
      Bool.and_true, Bool.false_eq_true, if_false]
  · simp only [List.find?_cons, hbit, h, BitVec.reduceGetLsb, Bool.and_false, Bool.and_true,
      if_true]

/-- Through the mask `0xFF` nothing is seen. -/
theorem highest_masked (lines : U8) : Pic.highest (lines &&& ~~~0xFF#8) = none := by
  have hzero : lines &&& ~~~0xFF#8 = 0#8 := BitVec.and_zero
  rw [hzero]
  decide

/-- With interrupts enabled the processor is offered vector 33 when a request of the keyboard is
pending, and nothing else. -/
theorem Invariant.acknowledge_eq (h : Invariant s) (hphase : s.phase = .enabled) :
    s.pics.acknowledge =
      if s.keyPending then some (33, { s.pics with master := s.pics.master.take 1 }) else none := by
  have hslave : s.pics.slave.signalled = none := by
    unfold Pic.signalled
    rw [h.slaveMask, highest_masked]
  have hinputs : s.pics.masterInputs = s.pics.master := by
    unfold PicPair.masterInputs
    rw [hslave]
    exact if_neg (by simp)
  have hservice : s.pics.master.inService = 0#8 := by
    rw [h.masterService, hphase]
    rfl
  have hvector : s.pics.master.vector 1 = 33 := by
    unfold Pic.vector
    rw [h.masterBase]
    rfl
  have hsignalled : s.pics.master.signalled = if s.keyPending then some 1 else none := by
    unfold Pic.signalled State.keyPending
    rw [h.masterMask, highest_keyboard, hservice]
    cases s.pics.master.request.getLsbD 1 with
    | true => rfl
    | false => rfl
  unfold PicPair.acknowledge
  rw [hinputs, hsignalled, hslave]
  split_ifs
  · rw [← hvector]
  · rfl

/-- The only device whose request shows at input 1 is the keyboard. -/
theorem raise_keyboard {irq : ℕ} (hirq : irq < 16) :
    (p.raise irq).master.request.getLsbD 1 = (p.master.request.getLsbD 1 || irq == 1) := by
  interval_cases irq <;> simp [PicPair.raise, Pic.lineBit]

/-- Requests change nothing else on the two controllers. -/
theorem raise_settings (irq : ℕ) (p : PicPair) :
    { (p.raise irq).master with request := p.master.request } = p.master ∧
      { (p.raise irq).slave with request := p.slave.request } = p.slave := by
  unfold PicPair.raise
  split_ifs
  · exact ⟨rfl, rfl⟩
  · exact ⟨rfl, rfl⟩
  · exact ⟨rfl, rfl⟩

/-- The invariant holds when `pic_remap` returns. -/
theorem invariant_remapped (p : PicPair) : Invariant (remapped p) := by
  have hpics : (remapped p).pics = picRemap p := rfl
  rw [picRemap_eq] at hpics
  have hpending : (remapped p).keyPending = false := by
    unfold State.keyPending
    rw [hpics]
    decide
  constructor
  · rw [hpics]
  · rw [hpics]
  · rw [hpics]
  · rw [hpics]
    rfl
  · rw [hpics]
  · exact fun v hv => absurd hv (by simp [remapped])
  · exact fun v hv => absurd hv (by simp [remapped])
  · rw [hpending]
    rfl

/-- A request keeps the invariant: it counts when it is one of the keyboard and none was pending. -/
theorem Invariant.request (h : Invariant s) (irq : Fin 16) (ht : step s (.request irq) = some t) :
    Invariant t := by
  injection ht with ht
  subst ht
  obtain ⟨hmaster, hslave⟩ := raise_settings irq s.pics
  have hkey := raise_keyboard (p := s.pics) irq.isLt
  have hone : (irq.val == 1) = decide (irq = 1) := by
    rw [Bool.beq_eq_decide_eq, decide_eq_decide, Fin.ext_iff]
    rfl
  have hcounted := h.counted
  have hpending : State.keyPending { s with pics := s.pics.raise irq } =
      (s.keyPending || decide (irq = 1)) := hkey.trans (by rw [hone]; rfl)
  constructor
  · exact (congrArg Pic.mask hmaster).trans h.masterMask
  · exact (congrArg Pic.vectorBase hmaster).trans h.masterBase
  · exact (congrArg Pic.control hmaster).trans h.masterControl
  · exact (congrArg Pic.inService hmaster).trans h.masterService
  · exact (congrArg Pic.mask hslave).trans h.slaveMask
  · exact h.handling
  · exact h.taken
  · show s.taken.length +
      (if State.keyPending { s with pics := s.pics.raise irq } then 1 else 0) = _
    rw [hpending]
    cases hbefore : s.keyPending
    · by_cases hirq : irq = 1
      · simpa [hbefore, hirq] using hcounted
      · simpa [hbefore, hirq] using hcounted
    · simpa [hbefore] using hcounted

/-- Taking an interrupt keeps the invariant: the pending request becomes one taken. -/
theorem Invariant.take (h : Invariant s) (ht : step s .take = some t) : Invariant t := by
  change (if s.phase = .enabled then _ else none) = some t at ht
  split_ifs at ht with hphase
  rw [h.acknowledge_eq hphase] at ht
  cases hpending : s.keyPending with
  | true =>
    rw [hpending] at ht
    injection ht with ht
    subst ht
    have hcounted := h.counted
    have hclear : ((s.pics.master.take 1).request).getLsbD 1 = false := by
      simp [Pic.take, Pic.lineBit]
    have hservice : (s.pics.master.take 1).inService = 0x02#8 := by
      have hidle : s.pics.master.inService = 0#8 := by
        rw [h.masterService, hphase]
        rfl
      show (if s.pics.master.control.getLsbD 1 then s.pics.master.inService
        else s.pics.master.inService ||| Pic.lineBit 1) = 0x02#8
      rw [h.masterControl, hidle]
      decide
    constructor
    · exact h.masterMask
    · exact h.masterBase
    · exact h.masterControl
    · exact hservice
    · exact h.slaveMask
    · exact fun v hv => (Phase.handling.inj hv).symm
    · intro v hv
      rcases List.mem_append.mp hv with hv | hv
      · exact h.taken v hv
      · exact List.mem_singleton.mp hv
    · rw [hpending] at hcounted
      show (s.taken ++ [33]).length +
        (if (s.pics.master.take 1).request.getLsbD 1 then 1 else 0) = _
      rw [hclear, List.length_append, List.length_singleton]
      exact hcounted
  | false =>
    rw [hpending] at ht
    cases ht

/-- The end of interrupt keeps the invariant: nothing is in service any more. -/
theorem Invariant.endOfInterrupt (h : Invariant s) (ht : step s .endOfInterrupt = some t) :
    Invariant t := by
  have hservice := h.masterService
  unfold step at ht
  cases hphase : s.phase with
  | handling v =>
    simp only [hphase, Option.some.injEq] at ht
    subst ht
    have htwo : s.pics.master.inService = 0x02#8 := by
      rw [hservice, hphase]
      rfl
    have hdone : ((Pic.highest 0x02#8).elim 0x02#8 fun i => 0x02#8 &&& ~~~Pic.lineBit i) = 0#8 := by
      decide
    have hmaster : (s.pics.outb 0x20#16 0x20#8).master =
        { s.pics.master with inService := 0#8 } := by
      show s.pics.master.outCommand 0x20#8 = _
      have hcommand : s.pics.master.outCommand 0x20#8 = { s.pics.master with
          inService := (Pic.highest s.pics.master.inService).elim s.pics.master.inService
            fun i => s.pics.master.inService &&& ~~~Pic.lineBit i } := rfl
      rw [hcommand, htwo, hdone]
    have hslave : (s.pics.outb 0x20#16 0x20#8).slave = s.pics.slave := rfl
    constructor
    · exact (congrArg Pic.mask hmaster).trans h.masterMask
    · exact (congrArg Pic.vectorBase hmaster).trans h.masterBase
    · exact (congrArg Pic.control hmaster).trans h.masterControl
    · exact congrArg Pic.inService hmaster
    · exact (congrArg Pic.mask hslave).trans h.slaveMask
    · exact fun v hv => absurd hv (by simp)
    · exact h.taken
    · have hsame : State.keyPending { s with
          pics := s.pics.outb 0x20#16 0x20#8, phase := .returning } = s.keyPending := by
        show (s.pics.outb 0x20#16 0x20#8).master.request.getLsbD 1 = _
        rw [hmaster]
        rfl
      rw [hsame]
      exact h.counted
  | starting => simp [hphase] at ht
  | enabled => simp [hphase] at ht
  | returning => simp [hphase] at ht

/-- A step that only goes from one phase without an interrupt in service to another keeps the
invariant. -/
theorem Invariant.phase (h : Invariant s) (hfrom : s.phase.inService = 0#8) :
    Invariant { s with phase := .enabled } where
  masterMask := h.masterMask
  masterBase := h.masterBase
  masterControl := h.masterControl
  masterService := h.masterService.trans hfrom
  slaveMask := h.slaveMask
  handling _ hv := absurd hv (by simp)
  taken := h.taken
  counted := h.counted

/-- Every step keeps the invariant. -/
theorem Invariant.step (h : Invariant s) (ht : step s e = some t) : Invariant t := by
  cases e with
  | request irq => exact h.request irq ht
  | take => exact h.take ht
  | endOfInterrupt => exact h.endOfInterrupt ht
  | sti =>
    change (if s.phase = .starting then _ else none) = some t at ht
    split_ifs at ht with hphase
    injection ht with ht
    exact ht ▸ h.phase (by rw [hphase]; rfl)
  | iretd =>
    change (if s.phase = .returning then _ else none) = some t at ht
    split_ifs at ht with hphase
    injection ht with ht
    exact ht ▸ h.phase (by rw [hphase]; rfl)

/-- The invariant holds in every state that the kernel can come to. -/
theorem Reachable.invariant (h : Reachable p s) : Invariant s := by
  induction h with
  | start => exact invariant_remapped p
  | step _ ht ih => exact ih.step ht

end

end AlderKernel.Interrupts
