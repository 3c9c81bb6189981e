import AlderKernel.Mm.FreePages

/-!
# The memory map as a list of entries

The walk of `pmm_init` visits a list of entries. After `pmm_init` the free pages are
those that a usable entry of the list releases, above the kernel image.
-/

namespace AlderKernel.Mm

open Machine

/-- `multiboot_mmap_entry_t`, less its `size`, which only the walk reads. -/
structure MapEntry where
  /-- `base_addr`. -/
  baseAddr : BitVec 64
  /-- `length`. -/
  length : BitVec 64
  /-- `type`. -/
  type : U32
  deriving DecidableEq

/-- The entry at an address. -/
def mapEntryAt (m : Memory) (ptr : U32) : MapEntry :=
  ⟨m.load64 (ptr + 4#32), m.load64 (ptr + 12#32), m.load32 (ptr + 20#32)⟩

/-- The entries that the walk from `ptr` on visits. -/
def mapEntries (m : Memory) (stop : U32) : ℕ → U32 → Option (List MapEntry)
  | 0, _ => none
  | turns + 1, ptr =>
    if ptr < stop then
      (mapEntries m stop turns (ptr + (m.load32 ptr + 4#32))).map (mapEntryAt m ptr :: ·)
    else some []

/-- The entries of the memory map; without a map there are none. -/
def memoryMap (m : Memory) (turns : ℕ) (multibootInfoAddr : U32) : Option (List MapEntry) :=
  if multibootInfoAddr ≠ 0#32 ∧ m.load32 multibootInfoAddr &&& multibootInfoMemMap ≠ 0#32 then
    let ptr := m.load32 (multibootInfoAddr + 48#32)
    mapEntries m (ptr + m.load32 (multibootInfoAddr + 44#32)) turns ptr
  else some []

namespace MapEntry

/-- `entry->type == 1`: usable memory. -/
def Usable (e : MapEntry) : Prop := e.type = 1#32

instance (e : MapEntry) : Decidable e.Usable := inferInstanceAs (Decidable (_ = _))

/-- The entry describes the byte at an address. -/
def Contains (e : MapEntry) (x : ℕ) : Prop :=
  e.baseAddr.toNat ≤ x ∧ x < e.baseAddr.toNat + e.length.toNat

/-- The entry ends inside the 64-bit address space. -/
def Bounded (e : MapEntry) : Prop := e.baseAddr.toNat + e.length.toNat < 2 ^ 64

instance (e : MapEntry) : Decidable e.Bounded := inferInstanceAs (Decidable (_ < _))

/-- The number in `first_page`: the page of the base, as 32 bits hold it. -/
def firstPage (e : MapEntry) : ℕ := e.baseAddr.toNat / 4096 % 2 ^ 32

/-- The number in `last_page`: the page of the clipped end. -/
def lastPage (e : MapEntry) : ℕ :=
  min (e.baseAddr.toNat + e.length.toNat) (128 * 1024 * 1024) / 4096

/-- The page is one that the loop over the entry frees. -/
def Releases (e : MapEntry) (page : ℕ) : Prop :=
  e.Usable ∧ e.firstPage ≤ page ∧ page < e.lastPage

instance (e : MapEntry) (page : ℕ) : Decidable (e.Releases page) :=
  inferInstanceAs (Decidable (_ ∧ _))

/-- The number in `last_page` when the end may pass the top of the 64-bit address space. -/
def wrappedLastPage (e : MapEntry) : ℕ :=
  min ((e.baseAddr.toNat + e.length.toNat) % 2 ^ 64) (128 * 1024 * 1024) / 4096

/-- The page is one that the loop over an entry that may pass the top frees. -/
def Frees (e : MapEntry) (page : ℕ) : Prop :=
  e.Usable ∧ e.firstPage ≤ page ∧ page < e.wrappedLastPage

instance (e : MapEntry) (page : ℕ) : Decidable (e.Frees page) :=
  inferInstanceAs (Decidable (_ ∧ _))

/-- What the body of the walk does at the entry. -/
def release (e : MapEntry) (p : Pmm) : Pmm :=
  if e.type = 1#32 then releaseRegion e.baseAddr e.length p else p

end MapEntry

section

variable {m : Memory} {stop ptr kernelEnd multibootInfoAddr : U32} {turns : ℕ} {p : Pmm}
  {e : MapEntry} {es : List MapEntry} {q : U32}

/-- The walk handles the entries that it visits one after the other. -/
theorem walkMemoryMap_eq (m : Memory) (stop : U32) (turns : ℕ) (ptr : U32) (p : Pmm) :
    walkMemoryMap m stop turns ptr p =
      (mapEntries m stop turns ptr).map fun es => es.foldl (fun p e => e.release p) p := by
  induction turns generalizing ptr p with
  | zero => rfl
  | succ turns ih =>
    unfold walkMemoryMap mapEntries
    by_cases hlt : ptr < stop
    · rw [if_pos hlt, if_pos hlt, Option.map_map]
      exact ih _ _
    · rw [if_neg hlt, if_neg hlt]
      rfl

/-- The usable memory is freed entry by entry. -/
theorem releaseUsable_eq (m : Memory) (turns : ℕ) (multibootInfoAddr : U32) (p : Pmm) :
    releaseUsable m turns multibootInfoAddr p =
      (memoryMap m turns multibootInfoAddr).map fun es =>
        es.foldl (fun p e => e.release p) p := by
  unfold releaseUsable memoryMap
  split_ifs with hmap
  · exact walkMemoryMap_eq m _ turns _ p
  · rfl

/-- `pmm_init` reserves everything, handles the entries and reserves the kernel image. -/
theorem pmmInit_eq (m : Memory) (kernelEnd : U32) (turns : ℕ) (multibootInfoAddr : U32)
    (p : Pmm) : pmmInit m kernelEnd turns multibootInfoAddr p =
      (memoryMap m turns multibootInfoAddr).map fun es =>
        reserveKernel kernelEnd (es.foldl (fun p e => e.release p) (reserveAll p)) := by
  unfold pmmInit
  rw [releaseUsable_eq, Option.map_map]
  rfl

/-- The first page of an entry, as the code computes it. -/
theorem toNat_firstPage (e : MapEntry) :
    ((e.baseAddr >>> 12).setWidth 32).toNat = e.firstPage := by
  rw [BitVec.toNat_setWidth, BitVec.toNat_ushiftRight, Nat.shiftRight_eq_div_pow]
  rfl

/-- The last page of an entry, as the code computes it. -/
theorem toNat_lastPage (e : MapEntry) :
    (((if maxManagedMemory.setWidth 64 < e.baseAddr + e.length then maxManagedMemory.setWidth 64
      else e.baseAddr + e.length) >>> 12).setWidth 32).toNat = e.wrappedLastPage := by
  have hsum : (e.baseAddr + e.length).toNat = (e.baseAddr.toNat + e.length.toNat) % 2 ^ 64 :=
    BitVec.toNat_add ..
  have hmax : (maxManagedMemory.setWidth 64).toNat = 128 * 1024 * 1024 := by decide
  unfold MapEntry.wrappedLastPage
  rw [BitVec.toNat_setWidth, BitVec.toNat_ushiftRight, Nat.shiftRight_eq_div_pow, ← hsum]
  split_ifs with hlt
  · rw [BitVec.lt_def, hmax] at hlt
    rw [hmax]
    omega
  · rw [BitVec.lt_def, hmax] at hlt
    omega

/-- For an entry that ends inside the address space the two notions are the same. -/
theorem MapEntry.frees_iff (h : e.Bounded) (page : ℕ) : e.Frees page ↔ e.Releases page := by
  have hlast : e.wrappedLastPage = e.lastPage := by
    unfold MapEntry.wrappedLastPage MapEntry.lastPage
    rw [Nat.mod_eq_of_lt h]
  simp [MapEntry.Frees, MapEntry.Releases, hlast]

/-- The loop over a usable entry frees the pages from its first to its last. -/
theorem free_release (e : MapEntry) :
    (e.release p).Free q ↔ p.Free q ∨ e.Frees q.toNat := by
  unfold MapEntry.release MapEntry.Frees
  by_cases htype : e.type = 1#32
  · have hmax : q < maxPages ↔ q.toNat < 32768 := BitVec.lt_def
    have hlast : e.wrappedLastPage ≤ 32768 := by
      unfold MapEntry.wrappedLastPage
      omega
    rw [if_pos htype]
    unfold releaseRegion
    dsimp only
    rw [free_forPages_releasePage (by simp), hmax, BitVec.le_def, BitVec.lt_def,
      toNat_firstPage, toNat_lastPage]
    unfold MapEntry.Usable
    exact or_congr_right ⟨fun ⟨hlo, hhi, _⟩ => ⟨htype, hlo, hhi⟩,
      fun ⟨_, hlo, hhi⟩ => ⟨hlo, hhi, hhi.trans_le hlast⟩⟩
  · simp [MapEntry.Usable, htype]

/-- The entries together free the pages that one of them frees. -/
theorem free_foldl_release (es : List MapEntry) :
    (es.foldl (fun p e => e.release p) p).Free q ↔ p.Free q ∨ ∃ e ∈ es, e.Frees q.toNat := by
  induction es generalizing p with
  | nil => simp
  | cons e es ih =>
    rw [List.foldl_cons, ih, free_release]
    simp [or_assoc]

/-- The loop that fills the bitmap leaves no page free from `page` on. -/
theorem not_free_fill {turns : ℕ} {page : U32} (hturns : maxPages.toNat ≤ page.toNat + turns)
    (hbelow : ∀ q, p.Free q → page ≤ q) :
    ¬ (forPages (fun page p => { p with bitmap := bitmapSet p.bitmap page }) maxPages turns
      page p).Free q := by
  have hmax : maxPages.toNat = 32768 := rfl
  induction turns generalizing page p with
  | zero =>
    intro hq
    have hle := hbelow q hq
    have hlt := hq.1
    bv_omega
  | succ turns ih =>
    unfold forPages
    split_ifs with hlt
    · refine ih (by bv_omega) fun q hq => ?_
      obtain ⟨hfree, hne⟩ := (free_bitmapSet _).mp hq
      have hle := hbelow q hfree
      bv_omega
    · intro hq
      have hle := hbelow q hq
      have hlt' := hq.1
      bv_omega

/-- Which pages are free does not depend on the counter. -/
theorem free_withCount (p : Pmm) (count : U32) : (⟨p.bitmap, count⟩ : Pmm).Free q ↔ p.Free q :=
  Iff.rfl

/-- The initialisation starts fully reserved. -/
theorem not_free_reserveAll : ¬ (reserveAll p).Free q := by
  have hfill : ¬ (forPages (fun page p => { p with bitmap := bitmapSet p.bitmap page }) maxPages
      maxPages.toNat 0#32 p).Free q :=
    not_free_fill (by simp) fun q _ => BitVec.le_def.mpr (Nat.zero_le _)
  unfold reserveAll
  exact fun hq => hfill ((free_withCount _ _).mp hq)

/-- The loop that reserves the kernel image takes its pages out of the free ones. -/
theorem free_reserveKernel : (reserveKernel kernelEnd p).Free q ↔
    p.Free q ∧ kernelEnd.toNat / 4096 < q.toNat := by
  unfold reserveKernel
  dsimp only
  rw [free_forPages_reservePage (by simp)]
  have hshift : (kernelEnd >>> 12).toNat = kernelEnd.toNat / 4096 := by
    rw [BitVec.toNat_ushiftRight, Nat.shiftRight_eq_div_pow]
  refine and_congr_right fun _ => ?_
  bv_omega

/-- After `pmm_init` a page is free when a usable entry frees it and it lies above the page of
`_kernel_end`. -/
theorem pmmInit_frees {start : Pmm} (hmap : memoryMap m turns multibootInfoAddr = some es)
    (hinit : pmmInit m kernelEnd turns multibootInfoAddr start = some p) :
    p.Free q ↔ kernelEnd.toNat / 4096 < q.toNat ∧ ∃ e ∈ es, e.Frees q.toNat := by
  rw [pmmInit_eq, hmap] at hinit
  obtain rfl := Option.some.inj hinit
  rw [free_reserveKernel, free_foldl_release, or_iff_right not_free_reserveAll]
  exact and_comm

/-- The same for entries that end inside the address space. -/
theorem pmmInit_free_iff {start : Pmm}
    (hmap : memoryMap m turns multibootInfoAddr = some es) (hbounded : ∀ e ∈ es, e.Bounded)
    (hinit : pmmInit m kernelEnd turns multibootInfoAddr start = some p) :
    p.Free q ↔ kernelEnd.toNat / 4096 < q.toNat ∧ ∃ e ∈ es, e.Releases q.toNat := by
  rw [pmmInit_frees hmap hinit]
  refine and_congr_right fun _ => exists_congr fun e => and_congr_right fun he => ?_
  exact MapEntry.frees_iff (hbounded e he) _

end

/-- A boot with one usable region, from 1 MB to 2 MB: the multiboot information at `0x1000` and
a memory map with one entry at `0x2000`. -/
def oneRegion : Memory :=
  let m : Memory := ⟨fun _ => 0#8⟩
  let m := ((m.store32 0x1000#32 0x40#32).store32 0x102C#32 24#32).store32 0x1030#32 0x2000#32
  let m := (m.store32 0x2000#32 20#32).store32 0x2004#32 0x100000#32
  (m.store32 0x200C#32 0x100000#32).store32 0x2014#32 1#32

/-- The entry of `oneRegion`. -/
theorem memoryMap_oneRegion :
    memoryMap oneRegion 2 0x1000#32 = some [⟨0x100000#64, 0x100000#64, 1#32⟩] := by
  decide

/-- `pmm_init` on `oneRegion`, with a kernel image up to `0x180000`, leaves the pages from 385 to
511 free. -/
theorem free_oneRegion {start : Pmm} {q : U32}
    (hinit : pmmInit oneRegion 0x180000#32 2 0x1000#32 ⟨fun _ => 0#8, 0#32⟩ = some start) :
    start.Free q ↔ 385 ≤ q.toNat ∧ q.toNat < 512 := by
  rw [pmmInit_free_iff memoryMap_oneRegion (by decide) hinit]
  simp only [List.mem_singleton, exists_eq_left, MapEntry.Releases]
  have husable : (⟨0x100000#64, 0x100000#64, 1#32⟩ : MapEntry).Usable := rfl
  have hfirst : (⟨0x100000#64, 0x100000#64, 1#32⟩ : MapEntry).firstPage = 256 := by decide
  have hlast : (⟨0x100000#64, 0x100000#64, 1#32⟩ : MapEntry).lastPage = 512 := by decide
  have hkernel : (0x180000#32).toNat / 4096 = 384 := by decide
  rw [and_iff_right husable, hfirst, hlast, hkernel]
  omega

/-- `pmm_init` on `oneRegion` ends, and leaves page 400 free. -/
theorem pmmInit_oneRegion : ∃ start,
    pmmInit oneRegion 0x180000#32 2 0x1000#32 ⟨fun _ => 0#8, 0#32⟩ = some start ∧
      start.Free 400#32 := by
  obtain ⟨start, hinit⟩ : ∃ start,
      pmmInit oneRegion 0x180000#32 2 0x1000#32 ⟨fun _ => 0#8, 0#32⟩ = some start := by
    rw [pmmInit_eq, memoryMap_oneRegion]
    exact ⟨_, rfl⟩
  exact ⟨start, hinit, (free_oneRegion hinit).mpr (by decide)⟩

end AlderKernel.Mm
