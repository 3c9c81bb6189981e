import AlderKernel.Machine.I386

/-!
# Interrupt gates and segment descriptors

How a 32-bit x86 processor finds the handler of an interrupt vector: the gate in the
table that `IDTR` points to, and the segment in the table that `GDTR` points to. Both
tables are bytes of memory, so what a lookup gives depends on what has been stored.
-/

namespace Machine

namespace Memory

/-- Store two bytes, low byte first. -/
def store16 (m : Memory) (a : U32) (v : U16) : Memory :=
  (m.write a (v.extractLsb' 0 8)).write (a + 1#32) (v.extractLsb' 8 8)

/-- A 16-bit store changes only its own two bytes. -/
theorem byte_store16_of_not_within {m : Memory} {a x : U32} {v : U16} (h : ¬ Within a 2 x) :
    (m.store16 a v).byte x = m.byte x := by
  unfold Within at h
  have h0 : x ≠ a := by bv_omega
  have h1 : x ≠ a + 1#32 := by bv_omega
  simp only [store16, byte_write, if_neg h0, if_neg h1]

/-- A 16-bit load returns what was stored last at its address. -/
@[simp] theorem load16_store16_self (m : Memory) (a : U32) (v : U16) :
    (m.store16 a v).load16 a = v := by
  have h10 : a + 1#32 ≠ a := by bv_omega
  simp only [load16, store16, byte_write, if_true, if_neg h10.symm]
  exact BitVec.extractLsb'_append_extractLsb' (w := 8)

/-- A 16-bit load is not affected by a 16-bit store to a separate place. -/
theorem load16_store16_of_apart {m : Memory} {a b : U32} {v : U16} (h : Apart a 2 b 2) :
    (m.store16 a v).load16 b = m.load16 b :=
  load16_congr fun _ hx => byte_store16_of_not_within (h.symm.not_within hx)

/-- A 16-bit load is not affected by a byte written outside its range. -/
theorem load16_write_of_not_within {m : Memory} {a b : U32} {v : U8} (h : ¬ Within b 2 a) :
    (m.write a v).load16 b = m.load16 b :=
  load16_congr fun _ hx => byte_write_of_ne fun he => h (he ▸ hx)

end Memory

/-- A descriptor-table register, as `lgdt` and `lidt` load it. -/
structure TableRegister where
  /-- The offset of the last byte of the table. -/
  limit : U16
  base : U32
  deriving DecidableEq

/-- The operand of `lgdt` and `lidt`: six bytes, the limit first. -/
def Memory.tableRegister (m : Memory) (a : U32) : TableRegister :=
  ⟨m.load16 a, m.load32 (a + 2#32)⟩

/-- The address of a descriptor of eight bytes. -/
def descriptorAddr (base : U32) (index : ℕ) : U32 := base + BitVec.ofNat 32 (8 * index)

/-- A gate of the interrupt table. -/
structure Gate where
  offset : U32
  selector : U16
  attributes : U8
  deriving DecidableEq

/-- The gate in the eight bytes at an address. -/
def Memory.gate (m : Memory) (a : U32) : Gate :=
  { offset := m.load16 (a + 6#32) ++ m.load16 a
    selector := m.load16 (a + 2#32)
    attributes := m.byte (a + 5#32) }

/-- The bit P of a gate. -/
def Gate.present (g : Gate) : Bool := g.attributes.getLsbD 7

/-- The type of a gate is that of a 32-bit interrupt gate, which disables interrupts. -/
def Gate.isInterruptGate (g : Gate) : Bool := g.attributes.extractLsb' 0 5 == 0b01110#5

/-- A segment, with its limit in bytes. -/
structure Segment where
  base : U32
  limit : ℕ
  access : U8
  deriving DecidableEq

/-- The segment in the eight bytes at an address. With the bit G the limit counts pages. -/
def Memory.segment (m : Memory) (a : U32) : Segment :=
  let limit := ((m.byte (a + 6#32)).extractLsb' 0 4 ++ m.load16 a).toNat
  { base := m.byte (a + 7#32) ++ m.byte (a + 4#32) ++ m.load16 (a + 2#32)
    limit := if (m.byte (a + 6#32)).getLsbD 7 then 4096 * limit + 4095 else limit
    access := m.byte (a + 5#32) }

/-- A present code segment of ring 0: P is set, DPL is 0, S is set, and the type is code. -/
def Segment.isKernelCode (s : Segment) : Bool := s.access.extractLsb' 3 5 == 0b10011#5

/-- The gate that the processor uses for a vector, when there is a present one. -/
def Memory.lookupGate (m : Memory) (idtr : TableRegister) (vector : ℕ) : Option Gate :=
  if idtr.limit.toNat < 8 * vector + 7 then none else
  let g := m.gate (descriptorAddr idtr.base vector)
  if g.present then some g else none

/-- The segment that a selector of the global table names. -/
def Memory.lookupSegment (m : Memory) (gdtr : TableRegister) (selector : U16) : Option Segment :=
  let index := (selector.extractLsb' 3 13).toNat
  if selector.getLsbD 2 ∨ index = 0 ∨ gdtr.limit.toNat < 8 * index + 7 then none else
  some (m.segment (descriptorAddr gdtr.base index))

/-- The linear address at which the processor, in ring 0, enters the handler of a vector with
interrupts disabled. Without it the processor raises a fault in place of the interrupt. -/
def Memory.interruptEntry (m : Memory) (gdtr idtr : TableRegister) (vector : ℕ) : Option U32 := do
  let g ← m.lookupGate idtr vector
  let s ← m.lookupSegment gdtr g.selector
  if g.isInterruptGate ∧ s.isKernelCode ∧ g.offset.toNat ≤ s.limit then
    some (s.base + g.offset)
  else none

section

variable {m m' : Memory} {a : U32}

/-- A gate depends only on its own bytes. -/
theorem Memory.gate_congr (h : ∀ x, Within a 8 x → m.byte x = m'.byte x) :
    m.gate a = m'.gate a := by
  have hpart (i n : ℕ) (hi : i + n ≤ 8) (x : U32) (hx : Within (a + BitVec.ofNat 32 i) n x) :
      m.byte x = m'.byte x := by
    apply h
    unfold Within at *
    bv_omega
  have hlow :=
    Memory.load16_congr fun x hx => h x (show Within a 8 x from Nat.lt_of_lt_of_le hx (by decide))
  have hselector := Memory.load16_congr (hpart 2 2 (by decide))
  have hhigh := Memory.load16_congr (hpart 6 2 (by decide))
  have hflags := hpart 5 1 (by decide) _ (within_self (by decide))
  unfold Memory.gate
  rw [hlow, hselector, hhigh, hflags]

end

end Machine
