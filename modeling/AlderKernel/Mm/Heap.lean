import AlderKernel.Mm.Pmm

/-!
# The kernel heap

`kernel/mm/heap.c`: blocks with a 16-byte header in front of their payload, linked in both
directions. Headers live in memory, next to the payloads; the static variables of
`heap.c` and the page allocator stand beside it. A walk over the list has no result when it
takes more turns than there are addresses, that is, when the list is cyclic.
-/

namespace AlderKernel.Mm

open Machine

/-- The fields of `heap_block_t`. -/
inductive HeapField
  | size
  | free
  | next
  | prev
  deriving DecidableEq

/-- Where a field stands in its header. -/
def HeapField.offset : HeapField → U32
  | size => 0#32
  | free => 4#32
  | next => 8#32
  | prev => 12#32

/-- `sizeof(heap_block_t)`. -/
def headerSize : U32 := 16#32

/-- `block->f`. -/
def field (m : Memory) (block : U32) (f : HeapField) : U32 := m.load32 (block + f.offset)

/-- `block->f = v`. -/
def setField (block : U32) (f : HeapField) (v : U32) (m : Memory) : Memory :=
  m.store32 (block + f.offset) v

/-- What `heap.c` works on: memory, the page allocator and its own static variables. -/
structure Heap where
  mem : Memory
  pmm : Pmm
  /-- `heap_head`. -/
  heapHead : U32
  /-- `used_bytes`. -/
  usedBytes : U32
  /-- `free_bytes`. -/
  freeBytes : U32

/-- `HEAP_INITIAL_PAGES`. -/
def heapInitialPages : U32 := 16#32

/-- `MIN_SPLIT_SIZE`. -/
def minSplitSize : U32 := 16#32

/-- `ALIGNMENT`. -/
def alignment : U32 := 8#32

/-- `align_up`. -/
def alignUp (n align : U32) : U32 := (n + align - 1#32) &&& ~~~(align - 1#32)

/-- The loop of `heap_extend`: further pages, as long as they are contiguous. -/
def extendPages : ℕ → U32 → U32 → Pmm → U32 × Pmm
  | 0, gotPages, _, p => (gotPages, p)
  | turns + 1, gotPages, expectedNext, p =>
    let r := pmmAllocPage p
    if r.1 = 0#32 then (gotPages, r.2) else
    if r.1 ≠ expectedNext then (gotPages, pmmFreePage r.1 r.2) else
    extendPages turns (gotPages + 1#32) (expectedNext + pageSize) r.2

/-- The walk to the last block of the list. -/
def lastBlock (m : Memory) : ℕ → U32 → Option U32
  | 0, _ => none
  | turns + 1, tail =>
    if field m tail .next ≠ 0#32 then lastBlock m turns (field m tail .next) else some tail

/-- The new block of `heap_extend`, before it is linked. -/
def initBlock (block size : U32) (m : Memory) : Memory :=
  setField block .prev 0#32 (setField block .next 0#32 (setField block .free 1#32
    (setField block .size size m)))

/-- `heap_extend`: the address of the new block at the end of the list, or 0. -/
def heapExtend (pages : U32) (s : Heap) : Option (U32 × Heap) :=
  let first := pmmAllocPage s.pmm
  if first.1 = 0#32 then some (0#32, { s with pmm := first.2 }) else
  let got := extendPages (pages.toNat - 1) 1#32 (first.1 + pageSize) first.2
  let block := first.1
  let size := got.1 * pageSize - headerSize
  let mem := initBlock block size s.mem
  let freeBytes := s.freeBytes + size
  if s.heapHead = 0#32 then
    some (block, ⟨mem, got.2, block, s.usedBytes, freeBytes⟩)
  else
    (lastBlock mem (2 ^ 32) s.heapHead).map fun tail =>
      (block, ⟨setField block .prev tail (setField tail .next block mem), got.2, s.heapHead,
        s.usedBytes, freeBytes⟩)

/-- `heap_init`. -/
def heapInit (s : Heap) : Option Heap :=
  (heapExtend heapInitialPages
    { s with heapHead := 0#32, usedBytes := 0#32, freeBytes := 0#32 }).map Prod.snd

/-- The search of `kmalloc`: the first free block that is big enough, or 0. -/
def firstFit (m : Memory) (size : U32) : ℕ → U32 → Option U32
  | 0, _ => none
  | turns + 1, block =>
    if block = 0#32 then some 0#32 else
    if field m block .free ≠ 0#32 ∧ size ≤ field m block .size then some block else
    firstFit m size turns (field m block .next)

/-- `if (next != 0) next->prev = v`, with which a change of links ends. -/
def setPrevOf (next v : U32) (m : Memory) : Memory :=
  if next ≠ 0#32 then setField next .prev v m else m

/-- The writes of `kmalloc` that split the leftover off a block. -/
def splitBlock (block size : U32) (m : Memory) : Memory :=
  let remainder := block + headerSize + size
  let m := setField remainder .size (field m block .size - size - headerSize) m
  let m := setField remainder .free 1#32 m
  let m := setField remainder .next (field m block .next) m
  let m := setField remainder .prev block m
  let m := setPrevOf (field m block .next) remainder m
  let m := setField block .next remainder m
  setField block .size size m

/-- The end of `kmalloc`, with a block that is big enough: split it, mark it as used, and give
its payload out. -/
def takeBlock (block size : U32) (s : Heap) : U32 × Heap :=
  let m := if size + headerSize + minSplitSize ≤ field s.mem block .size then
      splitBlock block size s.mem
    else s.mem
  let m := setField block .free 0#32 m
  let taken := field m block .size
  (block + headerSize, ⟨m, s.pmm, s.heapHead, s.usedBytes + taken, s.freeBytes - taken⟩)

/-- The number of pages `kmalloc` asks for. -/
def needPages (size : U32) : U32 :=
  let pages := (size + headerSize + pageSize - 1#32) / pageSize
  if pages < 1#32 then 1#32 else pages

/-- `kmalloc`. -/
def kmalloc (size : U32) (s : Heap) : Option (U32 × Heap) :=
  if size = 0#32 then some (0#32, s) else
  let size := alignUp size alignment
  (firstFit s.mem size (2 ^ 32) s.heapHead).bind fun block =>
    if block = 0#32 then
      (heapExtend (needPages size) s).map fun r =>
        if r.1 = 0#32 ∨ field r.2.mem r.1 .size < size then (0#32, r.2)
        else takeBlock r.1 size r.2
    else some (takeBlock block size s)

/-- The end of `try_merge`: the lower block takes the higher one in, if they meet. -/
def joinBlocks (lower higher : U32) (m : Memory) : Memory :=
  if lower + headerSize + field m lower .size ≠ higher then m else
  let m := setField lower .size (field m lower .size + (headerSize + field m higher .size)) m
  let m := setField lower .next (field m higher .next) m
  setPrevOf (field m higher .next) lower m

/-- `try_merge`. -/
def tryMerge (block neighbor : U32) (neighborIsNext : Bool) (m : Memory) : Memory :=
  if neighbor = 0#32 ∨ field m neighbor .free = 0#32 then m else
  let lower := if neighborIsNext then block else neighbor
  let higher := if neighborIsNext then neighbor else block
  joinBlocks lower higher m

/-- `kfree`. -/
def kfree (ptr : U32) (s : Heap) : Heap :=
  if ptr = 0#32 then s else
  let block := ptr - headerSize
  let m := setField block .free 1#32 s.mem
  let freed := field m block .size
  let m := tryMerge block (field m block .next) true m
  let m := tryMerge block (field m block .prev) false m
  ⟨m, s.pmm, s.heapHead, s.usedBytes - freed, s.freeBytes + freed⟩

end AlderKernel.Mm
