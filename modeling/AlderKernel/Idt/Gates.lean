import AlderKernel.Machine.Interrupts

/-!
# The interrupt table

`kernel/idt/idt.c`, with the descriptor tables of `boot.asm`. `idt_init` clears the table,
fills the gates of the 32 exceptions from `isr_stub_table`, adds the gate of the keyboard, and
loads the register. The main result is about the processor: through both tables it enters
exactly the stubs that were registered, whatever the table held before.
-/

namespace AlderKernel.Idt

open Machine

/-- The addresses of the objects of `idt.c` and of the stubs of `idt_asm.asm`. -/
structure Symbols where
  idt : U32
  idtp : U32
  /-- The words of `isr_stub_table`. -/
  isrStubTable : ℕ → U32
  keyboardStub : U32

/-- The address of `idt[n]`, of eight bytes. -/
def entryAddress (sym : Symbols) (n : ℕ) : U32 := descriptorAddr sym.idt n

/-- `idt_set_gate`. -/
def idtSetGate (sym : Symbols) (n : ℕ) (handler : U32) (selector : U16) (flags : U8) (m : Memory) :
    Memory :=
  let a := entryAddress sym n
  let m := m.store16 a ((handler &&& 0xFFFF#32).setWidth 16)
  let m := m.store16 (a + 2#32) selector
  let m := m.write (a + 4#32) 0#8
  let m := m.write (a + 5#32) flags
  m.store16 (a + 6#32) ((handler >>> 16 &&& 0xFFFF#32).setWidth 16)

/-- The body of the first loop of `idt_init`. -/
def clearGate (sym : Symbols) (i : ℕ) (m : Memory) : Memory :=
  let a := entryAddress sym i
  let m := m.store16 a 0#16
  let m := m.store16 (a + 6#32) 0#16
  let m := m.store16 (a + 2#32) 0#16
  let m := m.write (a + 5#32) 0#8
  m.write (a + 4#32) 0#8

/-- The first loop of `idt_init`, for `turns` turns from `i` on. -/
def clearGates (sym : Symbols) : ℕ → ℕ → Memory → Memory
  | 0, _, m => m
  | turns + 1, i, m => clearGates sym turns (i + 1) (clearGate sym i m)

/-- The second loop of `idt_init`. -/
def setExceptionGates (sym : Symbols) : ℕ → ℕ → Memory → Memory
  | 0, _, m => m
  | turns + 1, i, m =>
    setExceptionGates sym turns (i + 1) (idtSetGate sym i (sym.isrStubTable i) 0x08 0x8E m)

/-- `idt_load`: `lidt` with the address of `idtp`. -/
def idtLoad (m : Memory) (idtp : U32) : TableRegister := m.tableRegister idtp

/-- `idt_init`: the memory, and the register `IDTR`. The limit is `sizeof(idt) - 1`. -/
def idtInit (sym : Symbols) (m : Memory) : Memory × TableRegister :=
  let m := clearGates sym 256 0 m
  let m := setExceptionGates sym 32 0 m
  let m := idtSetGate sym 33 sym.keyboardStub 0x08 0x8E m
  let m := m.store16 sym.idtp (BitVec.ofNat 16 (256 * 8 - 1))
  let m := m.store32 (sym.idtp + 2#32) sym.idt
  (m, idtLoad m sym.idtp)

/-- The table at `gdt_start` of `boot.asm`: the null descriptor, flat code and flat data. -/
def gdt : List U8 :=
  [0x00, 0x00, 0x00, 0x00, 0x00, 0x00, 0x00, 0x00,
   0xFF, 0xFF, 0x00, 0x00, 0x00, 0b10011010, 0b11001111, 0x00,
   0xFF, 0xFF, 0x00, 0x00, 0x00, 0b10010010, 0b11001111, 0x00]

/-- The table of `boot.asm` is in memory. -/
def HoldsGdt (m : Memory) (gdtStart : U32) : Prop :=
  ∀ i < gdt.length, m.byte (gdtStart + BitVec.ofNat 32 i) = gdt.getD i 0#8

/-- `lgdt [gdt_descriptor]`: the limit is `gdt_end - gdt_start - 1`. -/
def gdtRegister (gdtStart : U32) : TableRegister :=
  { limit := BitVec.ofNat 16 (gdt.length - 1), base := gdtStart }

/-- The tables and the operand of `lidt` are different objects. -/
structure TablesPlaced (sym : Symbols) (gdtStart : U32) : Prop where
  idtpApart : Apart sym.idt (256 * 8) sym.idtp 6
  gdtApart : Apart sym.idt (256 * 8) gdtStart gdt.length
  gdtpApart : Apart sym.idtp 6 gdtStart gdt.length

section

variable {sym : Symbols} {gdtStart handler : U32} {selector : U16} {flags : U8} {m : Memory}
  {n k turns i : ℕ}

/-- Setting a gate writes only the eight bytes of its entry. -/
theorem byte_idtSetGate {x : U32} (hx : ¬ Within (entryAddress sym n) 8 x) :
    (idtSetGate sym n handler selector flags m).byte x = m.byte x := by
  have hpart (j : U32) (w : ℕ) (hj : j.toNat + w ≤ 8) :
      ¬ Within (entryAddress sym n + j) w x := by
    unfold Within at *
    bv_omega
  have hfour : x ≠ entryAddress sym n + 4#32 := fun h =>
    hpart 4#32 1 (by decide) (h ▸ within_self (by decide))
  have hfive : x ≠ entryAddress sym n + 5#32 := fun h =>
    hpart 5#32 1 (by decide) (h ▸ within_self (by decide))
  have hzero : ¬ Within (entryAddress sym n) 2 x := fun h => hx (Nat.lt_of_lt_of_le h (by decide))
  unfold idtSetGate
  rw [Memory.byte_store16_of_not_within (hpart 6#32 2 (by decide)), Memory.byte_write_of_ne hfive,
    Memory.byte_write_of_ne hfour, Memory.byte_store16_of_not_within (hpart 2#32 2 (by decide)),
    Memory.byte_store16_of_not_within hzero]

/-- The two halves of a handler's address give it back. -/
theorem handler_halves (handler : U32) :
    (handler >>> 16 &&& 0xFFFF#32).setWidth 16 ++ (handler &&& 0xFFFF#32).setWidth 16 =
      handler := by
  have hhigh : (handler >>> 16 &&& 0xFFFF#32).setWidth 16 = handler.extractLsb' 16 16 := by
    apply BitVec.eq_of_toNat_eq
    have hmask := Nat.and_two_pow_sub_one_eq_mod (handler.toNat / 2 ^ 16) 16
    simp only [BitVec.toNat_setWidth, BitVec.toNat_and, BitVec.toNat_ushiftRight,
      Nat.shiftRight_eq_div_pow, BitVec.extractLsb'_toNat, BitVec.toNat_ofNat]
    simp only [Nat.reducePow, Nat.reduceMod, Nat.reduceSub] at hmask ⊢
    rw [hmask, Nat.mod_mod]
  have hlow : (handler &&& 0xFFFF#32).setWidth 16 = handler.extractLsb' 0 16 := by
    apply BitVec.eq_of_toNat_eq
    have hmask := Nat.and_two_pow_sub_one_eq_mod handler.toNat 16
    simp only [BitVec.toNat_setWidth, BitVec.toNat_and, BitVec.extractLsb'_toNat,
      BitVec.toNat_ofNat, Nat.shiftRight_zero]
    simp only [Nat.reducePow, Nat.reduceMod, Nat.reduceSub] at hmask ⊢
    rw [hmask, Nat.mod_mod]
  rw [hhigh, hlow]
  exact BitVec.extractLsb'_append_extractLsb' (w := 16)

/-- The gate that the processor reads from an entry that was set. -/
theorem gate_idtSetGate :
    (idtSetGate sym n handler selector flags m).gate (entryAddress sym n) =
      ⟨handler, selector, flags⟩ := by
  have hapart (j l : U32) (h : 2 ≤ (j - l).toNat ∧ 2 ≤ (l - j).toNat) :
      Apart (entryAddress sym n + l) 2 (entryAddress sym n + j) 2 := by
    unfold Apart
    bv_omega
  have hbelow (j : U32) (h : 2 ≤ j.toNat ∧ j.toNat ≤ 2 ^ 31) :
      Apart (entryAddress sym n + j) 2 (entryAddress sym n) 2 := by
    unfold Apart
    bv_omega
  have hout (j l : U32) (h : 2 ≤ (l - j).toNat) :
      ¬ Within (entryAddress sym n + j) 2 (entryAddress sym n + l) := by
    unfold Within
    bv_omega
  have hstart (l : U32) (h : 2 ≤ l.toNat) :
      ¬ Within (entryAddress sym n) 2 (entryAddress sym n + l) := by
    unfold Within
    bv_omega
  unfold idtSetGate Memory.gate
  simp (disch := first | apply hapart; decide | apply hbelow; decide | apply hout; decide |
    apply hstart; decide) only [Memory.load16_store16_self, Memory.load16_store16_of_apart,
    Memory.load16_write_of_not_within, Memory.byte_store16_of_not_within, Memory.byte_write_self]
  rw [handler_halves]

/-- Different entries of the table are separated. -/
theorem not_within_entry {x : U32} (hn : n < 256)
    (hk : k < 256) (hne : n ≠ k) (hx : Within (entryAddress sym k) 8 x) :
    ¬ Within (entryAddress sym n) 8 x := by
  unfold Within entryAddress descriptorAddr at *
  bv_omega

/-- The bytes of an entry lie in the table. -/
theorem within_idt {x : U32} (hn : n < 256) (hx : Within (entryAddress sym n) 8 x) :
    Within sym.idt (256 * 8) x := by
  unfold Within entryAddress descriptorAddr at *
  bv_omega

/-- The gate of an entry after another entry was set. -/
theorem gate_idtSetGate_of_ne (hn : n < 256) (hk : k < 256) (hne : n ≠ k) :
    (idtSetGate sym n handler selector flags m).gate (entryAddress sym k) =
      m.gate (entryAddress sym k) :=
  Memory.gate_congr fun _ hx => byte_idtSetGate (not_within_entry hn hk hne hx)

/-- Clearing a gate writes only the eight bytes of its entry. -/
theorem byte_clearGate {x : U32} (hx : ¬ Within (entryAddress sym n) 8 x) :
    (clearGate sym n m).byte x = m.byte x := by
  have hpart (j : U32) (w : ℕ) (hj : j.toNat + w ≤ 8) :
      ¬ Within (entryAddress sym n + j) w x := by
    unfold Within at *
    bv_omega
  have hfour : x ≠ entryAddress sym n + 4#32 := fun h =>
    hpart 4#32 1 (by decide) (h ▸ within_self (by decide))
  have hfive : x ≠ entryAddress sym n + 5#32 := fun h =>
    hpart 5#32 1 (by decide) (h ▸ within_self (by decide))
  have hzero : ¬ Within (entryAddress sym n) 2 x := fun h => hx (Nat.lt_of_lt_of_le h (by decide))
  unfold clearGate
  rw [Memory.byte_write_of_ne hfour, Memory.byte_write_of_ne hfive,
    Memory.byte_store16_of_not_within (hpart 2#32 2 (by decide)),
    Memory.byte_store16_of_not_within (hpart 6#32 2 (by decide)),
    Memory.byte_store16_of_not_within hzero]

/-- A gate that was cleared is not present. -/
theorem present_clearGate : ((clearGate sym n m).gate (entryAddress sym n)).present = false := by
  have hne : entryAddress sym n + 5#32 ≠ entryAddress sym n + 4#32 := by bv_omega
  have hflags : (clearGate sym n m).byte (entryAddress sym n + 5#32) = 0#8 := by
    unfold clearGate
    rw [Memory.byte_write_of_ne hne, Memory.byte_write_self]
  unfold Gate.present Memory.gate
  rw [hflags]
  exact BitVec.getLsbD_zero

/-- The first loop leaves the gates outside its range. -/
theorem gate_clearGates_of_lt (hk : k < i) (hend : i + turns ≤ 256) :
    (clearGates sym turns i m).gate (entryAddress sym k) = m.gate (entryAddress sym k) := by
  induction turns generalizing i m with
  | zero => rfl
  | succ turns ih =>
    unfold clearGates
    rw [ih (by omega) (by omega)]
    exact Memory.gate_congr fun _ hx =>
      byte_clearGate (not_within_entry (by omega) (by omega) (by omega) hx)

/-- After the first loop no gate of its range is present. -/
theorem present_clearGates (hlo : i ≤ k) (hhi : k < i + turns) (hend : i + turns ≤ 256) :
    ((clearGates sym turns i m).gate (entryAddress sym k)).present = false := by
  induction turns generalizing i m with
  | zero => omega
  | succ turns ih =>
    unfold clearGates
    by_cases hk : k = i
    · subst hk
      rw [gate_clearGates_of_lt (by omega) (by omega)]
      exact present_clearGate
    · exact ih (by omega) (by omega) (by omega)

/-- The second loop leaves the gates outside its range. -/
theorem gate_setExceptionGates_of_not_mem (hk : k < 256) (hout : k < i ∨ i + turns ≤ k)
    (hend : i + turns ≤ 256) :
    (setExceptionGates sym turns i m).gate (entryAddress sym k) = m.gate (entryAddress sym k) := by
  induction turns generalizing i m with
  | zero => rfl
  | succ turns ih =>
    unfold setExceptionGates
    rw [ih (by omega) (by omega), gate_idtSetGate_of_ne (by omega) hk (by omega)]

/-- The second loop sets every gate of its range. -/
theorem gate_setExceptionGates (hlo : i ≤ k) (hhi : k < i + turns) (hend : i + turns ≤ 256) :
    (setExceptionGates sym turns i m).gate (entryAddress sym k) =
      ⟨sym.isrStubTable k, 0x08, 0x8E⟩ := by
  induction turns generalizing i m with
  | zero => omega
  | succ turns ih =>
    unfold setExceptionGates
    by_cases hk : k = i
    · subst hk
      rw [gate_setExceptionGates_of_not_mem (by omega) (.inl (by omega)) (by omega),
        gate_idtSetGate]
    · exact ih (by omega) (by omega) (by omega)

/-- The loops write only to the table. -/
theorem byte_clearGates {x : U32} (hx : ¬ Within sym.idt (256 * 8) x) (hend : i + turns ≤ 256) :
    (clearGates sym turns i m).byte x = m.byte x := by
  induction turns generalizing i m with
  | zero => rfl
  | succ turns ih =>
    unfold clearGates
    rw [ih (by omega), byte_clearGate fun h => hx (within_idt (by omega) h)]

/-- The loop over the exception gates writes nothing outside of the table. -/
theorem byte_setExceptionGates {x : U32} (hx : ¬ Within sym.idt (256 * 8) x)
    (hend : i + turns ≤ 256) : (setExceptionGates sym turns i m).byte x = m.byte x := by
  induction turns generalizing i m with
  | zero => rfl
  | succ turns ih =>
    unfold setExceptionGates
    rw [ih (by omega), byte_idtSetGate fun h => hx (within_idt (by omega) h)]

/-- `idt_init` writes only to the table and to the operand of `lidt`. -/
theorem byte_idtInit {x : U32} (hidt : ¬ Within sym.idt (256 * 8) x)
    (hidtp : ¬ Within sym.idtp 6 x) : (idtInit sym m).1.byte x = m.byte x := by
  have hlimit : ¬ Within sym.idtp 2 x := fun h => hidtp (Nat.lt_of_lt_of_le h (by decide))
  have hbase : ¬ Within (sym.idtp + 2#32) 4 x := by
    unfold Within at *
    bv_omega
  unfold idtInit
  rw [Memory.byte_store32_of_not_within hbase, Memory.byte_store16_of_not_within hlimit,
    byte_idtSetGate fun h => hidt (within_idt (by decide) h),
    byte_setExceptionGates hidt (by decide), byte_clearGates hidt (by decide)]

/-- `IDTR` covers the whole table. -/
theorem idtInit_register : (idtInit sym m).2 = ⟨2047#16, sym.idt⟩ := by
  have hapart : ∀ x, Within sym.idtp 2 x → ¬ Within (sym.idtp + 2#32) 4 x := by
    intro x hx
    unfold Within at *
    bv_omega
  have hlimit (m : Memory) (v : U32) :
      (m.store32 (sym.idtp + 2#32) v).load16 sym.idtp = m.load16 sym.idtp :=
    Memory.load16_congr fun x hx => Memory.byte_store32_of_not_within (hapart x hx)
  simp only [idtInit, idtLoad, Memory.tableRegister, hlimit, Memory.load16_store16_self,
    Memory.load32_store32_self]

/-- The gates after `idt_init`. -/
theorem gate_idtInit (hplaced : Apart sym.idt (256 * 8) sym.idtp 6) (hk : k < 256) :
    (idtInit sym m).1.gate (entryAddress sym k) =
      (idtSetGate sym 33 sym.keyboardStub 0x08 0x8E
        (setExceptionGates sym 32 0 (clearGates sym 256 0 m))).gate (entryAddress sym k) := by
  refine Memory.gate_congr fun x hx => ?_
  have hidtp := hplaced.not_within (within_idt hk hx)
  have hlimit : ¬ Within sym.idtp 2 x := fun h => hidtp (Nat.lt_of_lt_of_le h (by decide))
  have hbase : ¬ Within (sym.idtp + 2#32) 4 x := by
    unfold Within at *
    bv_omega
  unfold idtInit
  rw [Memory.byte_store32_of_not_within hbase, Memory.byte_store16_of_not_within hlimit]

/-- The handler that the processor is to find for a vector. -/
def registeredHandler (sym : Symbols) (vector : ℕ) : Option U32 :=
  if vector < 32 then some (sym.isrStubTable vector)
  else if vector = 33 then some sym.keyboardStub
  else none

/-- A registered handler has a gate with the code selector and the flags `0x8E`. -/
theorem gate_of_registered (hplaced : Apart sym.idt (256 * 8) sym.idtp 6)
    (h : registeredHandler sym k = some handler) :
    (idtInit sym m).1.gate (entryAddress sym k) = ⟨handler, 0x08, 0x8E⟩ := by
  unfold registeredHandler at h
  split_ifs at h with hexc hkey
  · injection h with h
    rw [gate_idtInit hplaced (by omega), gate_idtSetGate_of_ne (by decide) (by omega) (by omega),
      gate_setExceptionGates (by omega) (by omega) (by decide), h]
  · injection h with h
    rw [gate_idtInit hplaced (by omega), hkey, gate_idtSetGate, h]

/-- Every other gate is not present. -/
theorem present_of_not_registered (hplaced : Apart sym.idt (256 * 8) sym.idtp 6) (hk : k < 256)
    (h : registeredHandler sym k = none) :
    ((idtInit sym m).1.gate (entryAddress sym k)).present = false := by
  unfold registeredHandler at h
  split_ifs at h with hexc hkey
  rw [gate_idtInit hplaced hk, gate_idtSetGate_of_ne (by decide) hk (by omega),
    gate_setExceptionGates_of_not_mem hk (.inr (by omega)) (by decide)]
  exact present_clearGates (by omega) (by omega) (by decide)

/-- The present gates after `idt_init` are those that it registered. -/
theorem lookupGate_idtInit (hplaced : Apart sym.idt (256 * 8) sym.idtp 6) (vector : ℕ) :
    (idtInit sym m).1.lookupGate (idtInit sym m).2 vector =
      (registeredHandler sym vector).map fun handler => ⟨handler, 0x08, 0x8E⟩ := by
  have haddr : descriptorAddr sym.idt vector = entryAddress sym vector := rfl
  rw [idtInit_register]
  unfold Memory.lookupGate
  by_cases hlimit : (2047#16).toNat < 8 * vector + 7
  · have hbig : 256 ≤ vector := by
      simp only [BitVec.toNat_ofNat] at hlimit
      omega
    unfold registeredHandler
    rw [if_pos hlimit, if_neg (by omega), if_neg (by omega)]
    rfl
  have hv : vector < 256 := by
    simp only [BitVec.toNat_ofNat] at hlimit
    omega
  rw [if_neg hlimit, haddr]
  cases h : registeredHandler sym vector with
  | none =>
    have habsent := present_of_not_registered (m := m) hplaced hv h
    exact if_neg (by rw [habsent]; decide)
  | some handler =>
    rw [gate_of_registered hplaced h]
    exact if_pos (show BitVec.getLsbD (0x8E#8) 7 = true by decide)

/-- The selector of the gates names flat code of ring 0. -/
theorem lookupSegment_gdt (hgdt : HoldsGdt m gdtStart) :
    m.lookupSegment (gdtRegister gdtStart) 0x08 = some ⟨0#32, 2 ^ 32 - 1, 0b10011010#8⟩ := by
  have hbyte (i : ℕ) (hi : i < 8) :
      m.byte (descriptorAddr gdtStart 1 + BitVec.ofNat 32 i) = gdt.getD (8 + i) 0#8 := by
    have haddr : descriptorAddr gdtStart 1 + BitVec.ofNat 32 i =
        gdtStart + BitVec.ofNat 32 (8 + i) := by
      unfold descriptorAddr
      rw [BitVec.add_assoc, ← BitVec.ofNat_add]
    rw [haddr]
    exact hgdt (8 + i) (by show 8 + i < 24; omega)
  have hzero := hbyte 0 (by decide)
  rw [BitVec.add_zero] at hzero
  have htwo : descriptorAddr gdtStart 1 + 2#32 + 1#32 = descriptorAddr gdtStart 1 + 3#32 := by
    bv_omega
  have hsegment : m.segment (descriptorAddr gdtStart 1) = ⟨0#32, 2 ^ 32 - 1, 0b10011010#8⟩ := by
    unfold Memory.segment Memory.load16
    rw [htwo, hzero, hbyte 1 (by decide), hbyte 2 (by decide), hbyte 3 (by decide),
      hbyte 4 (by decide), hbyte 5 (by decide), hbyte 6 (by decide), hbyte 7 (by decide)]
    decide
  have hinside : ¬ ((0x08#16).getLsbD 2 ∨ ((0x08#16).extractLsb' 3 13).toNat = 0 ∨
      (BitVec.ofNat 16 (gdt.length - 1)).toNat < 8 * ((0x08#16).extractLsb' 3 13).toNat + 7) := by
    decide
  unfold Memory.lookupSegment gdtRegister
  rw [← hsegment]
  exact if_neg hinside

/-- After `idt_init` the processor enters exactly the registered stubs, with interrupts
disabled and at their own addresses, whatever the table held before. -/
theorem idtInit_interruptEntry (hplaced : TablesPlaced sym gdtStart) (hgdt : HoldsGdt m gdtStart)
    (vector : ℕ) :
    (idtInit sym m).1.interruptEntry (gdtRegister gdtStart) (idtInit sym m).2 vector =
      if vector < 32 then some (sym.isrStubTable vector)
      else if vector = 33 then some sym.keyboardStub
      else none := by
  have hkept : HoldsGdt (idtInit sym m).1 gdtStart := by
    intro i hi
    have hin : Within gdtStart gdt.length (gdtStart + BitVec.ofNat 32 i) :=
      within_add hi (by decide)
    rw [byte_idtInit (hplaced.gdtApart.symm.not_within hin)
      (hplaced.gdtpApart.symm.not_within hin)]
    exact hgdt i hi
  have hlookup := lookupGate_idtInit (m := m) hplaced.idtpApart vector
  change _ = registeredHandler sym vector
  unfold Memory.interruptEntry
  rw [hlookup]
  cases registeredHandler sym vector with
  | none => rfl
  | some handler =>
    simp only [Option.map_some, Option.bind_eq_bind, Option.bind_some, lookupSegment_gdt hkept]
    have hflat : handler.toNat ≤ 2 ^ 32 - 1 := by
      have := handler.isLt
      omega
    have hgate : (Gate.mk handler 0x08 0x8E).isInterruptGate :=
      show ((0x8E#8).extractLsb' 0 5 == 0b01110#5) = true by decide
    rw [if_pos ⟨hgate, by decide, hflat⟩, BitVec.zero_add]

end

/-- The kernel's tables in a first megabyte, and the stubs 16 bytes apart. -/
def kernelSymbols : Symbols :=
  { idt := 0x10000, idtp := 0x11000, isrStubTable := fun i => BitVec.ofNat 32 (0x20000 + 16 * i)
    keyboardStub := 0x30000 }

/-- With the tables in place the keyboard's vector leads to its stub. -/
theorem idtInit_interruptEntry_keyboard :
    (idtInit kernelSymbols ⟨fun x => gdt.getD x.toNat 0#8⟩).1.interruptEntry (gdtRegister 0)
        (idtInit kernelSymbols ⟨fun x => gdt.getD x.toNat 0#8⟩).2 33 = some 0x30000#32 := by
  have hplaced : TablesPlaced kernelSymbols 0 := ⟨by decide, by decide, by decide⟩
  have hgdt : HoldsGdt ⟨fun x => gdt.getD x.toNat 0#8⟩ 0 := by
    intro i hi
    have hi : i < 24 := hi
    show gdt.getD (0#32 + BitVec.ofNat 32 i).toNat 0#8 = _
    rw [BitVec.zero_add, BitVec.toNat_ofNat, Nat.mod_eq_of_lt (by omega)]
  exact idtInit_interruptEntry hplaced hgdt 33

end AlderKernel.Idt
