import Mathlib

/-!
# A flat byte memory with wrapping 32-bit addresses

Loads and stores are little-endian. Address ranges are read modulo `2 ^ 32`, so
`Within a n x` says that `x` is one of the `n` addresses that follow `a`, also
where the range passes the top of the address space. The lemmas here are the
frame rules by which a load survives stores to other places.
-/

namespace Machine

/-- A byte. -/
abbrev U8 := BitVec 8

/-- A 16-bit machine word. -/
abbrev U16 := BitVec 16

/-- A 32-bit machine word, also used for addresses. -/
abbrev U32 := BitVec 32

/-- The address `x` is one of the `n` addresses from `a` on, modulo `2 ^ 32`. -/
def Within (a : U32) (n : ℕ) (x : U32) : Prop := (x - a).toNat < n

instance (a : U32) (n : ℕ) (x : U32) : Decidable (Within a n x) :=
  inferInstanceAs (Decidable (_ < _))

/-- The ranges of `n` bytes at `a` and of `k` bytes at `b` share no address. -/
def Apart (a : U32) (n : ℕ) (b : U32) (k : ℕ) : Prop := n ≤ (b - a).toNat ∧ k ≤ (a - b).toNat

instance (a : U32) (n : ℕ) (b : U32) (k : ℕ) : Decidable (Apart a n b k) :=
  inferInstanceAs (Decidable (_ ∧ _))

/-- Separated ranges are disjoint. -/
theorem Apart.not_within {a b x : U32} {n k : ℕ} (h : Apart a n b k) (hx : Within a n x) :
    ¬ Within b k x := by
  unfold Apart Within at *
  bv_omega

/-- Separation is symmetric. -/
theorem Apart.symm {a b : U32} {n k : ℕ} (h : Apart a n b k) : Apart b k a n := ⟨h.2, h.1⟩

/-- Ranges that follow one another below `2 ^ 32` are separated. -/
theorem apart_of_le {a b : U32} {n k : ℕ} (hn : 0 < n) (h : a.toNat + n ≤ b.toNat)
    (hk : b.toNat + k ≤ 2 ^ 32) : Apart a n b k := by
  unfold Apart
  bv_omega

/-- The first address of a nonempty range lies in it. -/
theorem within_self {a : U32} {n : ℕ} (hn : 0 < n) : Within a n a := by
  unfold Within
  bv_omega

/-- The `i`-th address of a range lies in it. -/
theorem within_add {a : U32} {n i : ℕ} (hi : i < n) (hn : n ≤ 2 ^ 32) :
    Within a n (a + BitVec.ofNat 32 i) := by
  unfold Within
  bv_omega

/-- A memory: one byte at each 32-bit address. -/
@[ext]
structure Memory where
  /-- The byte stored at an address. -/
  byte : U32 → U8

namespace Memory

/-- Replace one byte. -/
def write (m : Memory) (a : U32) (v : U8) : Memory :=
  ⟨fun x => if x = a then v else m.byte x⟩

/-- Load two bytes, low byte first. -/
def load16 (m : Memory) (a : U32) : U16 := m.byte (a + 1#32) ++ m.byte a

/-- Load four bytes, low byte first. -/
def load32 (m : Memory) (a : U32) : U32 :=
  m.byte (a + 3#32) ++ m.byte (a + 2#32) ++ m.byte (a + 1#32) ++ m.byte a

/-- Load eight bytes, low byte first. -/
def load64 (m : Memory) (a : U32) : BitVec 64 := m.load32 (a + 4#32) ++ m.load32 a

/-- Store four bytes, low byte first. -/
def store32 (m : Memory) (a v : U32) : Memory :=
  (((m.write a (v.extractLsb' 0 8)).write (a + 1#32) (v.extractLsb' 8 8)).write (a + 2#32)
    (v.extractLsb' 16 8)).write (a + 3#32) (v.extractLsb' 24 8)

/-- A byte that is written is read back. -/
@[simp] theorem byte_write_self (m : Memory) (a : U32) (v : U8) : (m.write a v).byte a = v := by
  simp [write]

/-- Writing a byte writes this one and no other. -/
theorem byte_write (m : Memory) (a x : U32) (v : U8) :
    (m.write a v).byte x = if x = a then v else m.byte x := rfl

/-- Writing a byte leaves the other addresses alone. -/
theorem byte_write_of_ne {m : Memory} {a x : U32} {v : U8} (h : x ≠ a) :
    (m.write a v).byte x = m.byte x := if_neg h

/-- A 32-bit store changes only its own four bytes. -/
theorem byte_store32_of_not_within {m : Memory} {a v x : U32} (h : ¬ Within a 4 x) :
    (m.store32 a v).byte x = m.byte x := by
  unfold Within at h
  have h0 : x ≠ a := by bv_omega
  have h1 : x ≠ a + 1#32 := by bv_omega
  have h2 : x ≠ a + 2#32 := by bv_omega
  have h3 : x ≠ a + 3#32 := by bv_omega
  simp only [store32, byte_write, if_neg h0, if_neg h1, if_neg h2, if_neg h3]

/-- Loads depend only on the bytes that they read. -/
theorem load32_congr {m m' : Memory} {a : U32}
    (h : ∀ x, Within a 4 x → m.byte x = m'.byte x) : m.load32 a = m'.load32 a := by
  have hi : ∀ i : ℕ, i < 4 → m.byte (a + BitVec.ofNat 32 i) = m'.byte (a + BitVec.ofNat 32 i) :=
    fun i hi => h _ (within_add hi (by decide))
  unfold load32
  rw [h a (within_self (by decide)), hi 1 (by decide), hi 2 (by decide), hi 3 (by decide)]

/-- Sixteen-bit loads depend only on the bytes that they read. -/
theorem load16_congr {m m' : Memory} {a : U32}
    (h : ∀ x, Within a 2 x → m.byte x = m'.byte x) : m.load16 a = m'.load16 a := by
  have h1 : m.byte (a + 1#32) = m'.byte (a + 1#32) :=
    h _ (within_add (i := 1) (by decide) (by decide))
  unfold load16
  rw [h a (within_self (by decide)), h1]

/-- A load returns what was stored last at its address. -/
@[simp] theorem load32_store32_self (m : Memory) (a v : U32) : (m.store32 a v).load32 a = v := by
  have h10 : a + 1#32 ≠ a := by bv_omega
  have h20 : a + 2#32 ≠ a := by bv_omega
  have h30 : a + 3#32 ≠ a := by bv_omega
  have h21 : a + 2#32 ≠ a + 1#32 := by bv_omega
  have h31 : a + 3#32 ≠ a + 1#32 := by bv_omega
  have h32 : a + 3#32 ≠ a + 2#32 := by bv_omega
  simp only [load32, store32, byte_write, if_true, if_neg h10, if_neg h20, if_neg h30, if_neg h21,
    if_neg h31, if_neg h32, if_neg h10.symm, if_neg h20.symm, if_neg h30.symm, if_neg h21.symm,
    if_neg h31.symm, if_neg h32.symm]
  ext i hi
  simp only [BitVec.getElem_append, BitVec.getElem_extractLsb']
  grind

/-- A load is not affected by a store to a separate place. -/
theorem load32_store32_of_apart {m : Memory} {a b v : U32} (h : Apart a 4 b 4) :
    (m.store32 a v).load32 b = m.load32 b :=
  load32_congr fun _ hx => byte_store32_of_not_within (h.symm.not_within hx)

/-- A load is not affected by a byte written outside its range. -/
theorem load32_write_of_not_within {m : Memory} {a b : U32} {v : U8} (h : ¬ Within b 4 a) :
    (m.write a v).load32 b = m.load32 b :=
  load32_congr fun _ hx => byte_write_of_ne fun he => h (he ▸ hx)

end Memory

end Machine
