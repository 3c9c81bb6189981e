import AlderKernel.Machine.Memory

/-!
# The physical page allocator

`kernel/mm/pmm.c`: one bit per 4096-byte page of the first 128 MB, set when the page is
reserved, and the number of free pages. `pmm_init` walks the memory map of the boot loader
in memory. `_kernel_end`, whose value the linker decides, is a parameter.
-/

namespace AlderKernel.Mm

open Machine

/-- `PAGE_SIZE`, as `PAGE_SHIFT` gives it. -/
def pageSize : U32 := 1#32 <<< 12

/-- `MAX_MANAGED_MEMORY`: only the first 128 MB are managed. -/
def maxManagedMemory : U32 := 128#32 * 1024#32 * 1024#32

/-- `MAX_PAGES`. -/
def maxPages : U32 := maxManagedMemory >>> 12

/-- The static variables of `pmm.c`. The bitmap is read and written below `BITMAP_SIZE` only,
where the page is below `MAX_PAGES`. -/
structure Pmm where
  /-- `bitmap`. -/
  bitmap : U32 → U8
  /-- `free_pages_count`. -/
  freePagesCount : U32

/-- `1 << (page % 8)`. -/
def pageBit (page : U32) : U32 := 1#32 <<< (page % 8#32)

/-- `bitmap_set`. -/
def bitmapSet (bitmap : U32 → U8) (page : U32) : U32 → U8 := fun i =>
  if i = page / 8#32 then bitmap i ||| (pageBit page).setWidth 8 else bitmap i

/-- `bitmap_clear`. -/
def bitmapClear (bitmap : U32 → U8) (page : U32) : U32 → U8 := fun i =>
  if i = page / 8#32 then bitmap i &&& (~~~(pageBit page)).setWidth 8 else bitmap i

/-- `bitmap_test`: whether the page is reserved. -/
def bitmapTest (bitmap : U32 → U8) (page : U32) : Bool :=
  (bitmap (page / 8#32)).setWidth 32 &&& pageBit page ≠ 0#32

/-- `reserve_page`. -/
def reservePage (page : U32) (p : Pmm) : Pmm :=
  if page < maxPages ∧ ¬ bitmapTest p.bitmap page then
    ⟨bitmapSet p.bitmap page, p.freePagesCount - 1#32⟩
  else p

/-- The body of the loop over a usable region: free the page, if it is not free yet. -/
def releasePage (page : U32) (p : Pmm) : Pmm :=
  if bitmapTest p.bitmap page then ⟨bitmapClear p.bitmap page, p.freePagesCount + 1#32⟩ else p

/-- The loop `for (p = page; p < last && p < MAX_PAGES; p++)`, for at most `turns` turns. -/
def forPages (body : U32 → Pmm → Pmm) (last : U32) : ℕ → U32 → Pmm → Pmm
  | 0, _, p => p
  | turns + 1, page, p =>
    if page < last ∧ page < maxPages then
      forPages body last turns (page + 1#32) (body page p)
    else p

/-- `entry->type == 1` marks usable memory: its pages become free. -/
def releaseRegion (baseAddr length : BitVec 64) (p : Pmm) : Pmm :=
  let regionEnd := baseAddr + length
  let regionEnd := if maxManagedMemory.setWidth 64 < regionEnd then maxManagedMemory.setWidth 64
    else regionEnd
  let firstPage := (baseAddr >>> 12).setWidth 32
  let lastPage := (regionEnd >>> 12).setWidth 32
  forPages releasePage lastPage maxPages.toNat firstPage p

/-- The walk over the memory map, `while (ptr < end)`. It has no result when it
does not end within the given number of turns. -/
def walkMemoryMap (m : Memory) (stop : U32) : ℕ → U32 → Pmm → Option Pmm
  | 0, _, _ => none
  | turns + 1, ptr, p =>
    if ptr < stop then
      let p := if m.load32 (ptr + 20#32) = 1#32 then
          releaseRegion (m.load64 (ptr + 4#32)) (m.load64 (ptr + 12#32)) p
        else p
      walkMemoryMap m stop turns (ptr + (m.load32 ptr + 4#32)) p
    else some p

/-- `MULTIBOOT_INFO_MEM_MAP`. -/
def multibootInfoMemMap : U32 := 0x40#32

/-- Start fully reserved. -/
def reserveAll (p : Pmm) : Pmm :=
  let p := forPages (fun page p => { p with bitmap := bitmapSet p.bitmap page }) maxPages
    maxPages.toNat 0#32 p
  { p with freePagesCount := 0#32 }

/-- Free what the memory map, if there is one, reports as usable. -/
def releaseUsable (m : Memory) (turns : ℕ) (multibootInfoAddr : U32) (p : Pmm) : Option Pmm :=
  if multibootInfoAddr ≠ 0#32 ∧ m.load32 multibootInfoAddr &&& multibootInfoMemMap ≠ 0#32 then
    let ptr := m.load32 (multibootInfoAddr + 48#32)
    walkMemoryMap m (ptr + m.load32 (multibootInfoAddr + 44#32)) turns ptr p
  else some p

/-- Reserve the low memory and the kernel image again, whatever the map says. -/
def reserveKernel (kernelEnd : U32) (p : Pmm) : Pmm :=
  let kernelEndPage := (kernelEnd >>> 12) + 1#32
  forPages reservePage kernelEndPage maxPages.toNat 0#32 p

/-- `pmm_init`, with the address of `_kernel_end` and a bound on the turns of the walk
over the memory map. -/
def pmmInit (m : Memory) (kernelEnd : U32) (turns : ℕ) (multibootInfoAddr : U32) (p : Pmm) :
    Option Pmm :=
  (releaseUsable m turns multibootInfoAddr (reserveAll p)).map (reserveKernel kernelEnd)

/-- The loop of `pmm_alloc_page` from page `i` on. -/
def allocPageFrom : ℕ → U32 → Pmm → U32 × Pmm
  | 0, _, p => (0#32, p)
  | turns + 1, i, p =>
    if i < maxPages then
      if ¬ bitmapTest p.bitmap i then
        (i <<< 12, ⟨bitmapSet p.bitmap i, p.freePagesCount - 1#32⟩)
      else allocPageFrom turns (i + 1#32) p
    else (0#32, p)

/-- `pmm_alloc_page`: the address of a free page, which is reserved now, or 0. -/
def pmmAllocPage (p : Pmm) : U32 × Pmm := allocPageFrom (maxPages.toNat + 1) 0#32 p

/-- `pmm_free_page`. -/
def pmmFreePage (addr : U32) (p : Pmm) : Pmm :=
  let page := addr >>> 12
  if page < maxPages ∧ bitmapTest p.bitmap page then
    ⟨bitmapClear p.bitmap page, p.freePagesCount + 1#32⟩
  else p

/-- A page that the allocator may hand out. -/
def Pmm.Free (p : Pmm) (page : U32) : Prop :=
  page < maxPages ∧ bitmapTest p.bitmap page = false

end AlderKernel.Mm
