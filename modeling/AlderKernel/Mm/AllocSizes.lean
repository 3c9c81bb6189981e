import AlderKernel.Mm.HeapRuns

/-!
# What `kmalloc` gives is what was asked for

A pointer that `kmalloc` returns is aligned, and the bytes that were asked for lie in the block and
in the pages of the heap. The request is rounded up in 32 bits, so this holds up to the last
multiple of 8; a greater one is rounded to nothing, and gets any free block.
-/

namespace AlderKernel.Mm

open Machine

/-- The last multiple of `ALIGNMENT`. -/
def maxRequest : U32 := 0xFFFFFFF8#32

/-- What a caller of `kmalloc` for `n` bytes relies on. -/
structure Gives (start : Pmm) (s : Heap) (n ptr : U32) : Prop where
  aligned : ptr % alignment = 0#32
  size_le : n ≤ field s.mem (ptr - headerSize) .size
  owned : ∀ x, ptr.toNat ≤ x → x < ptr.toNat + n.toNat →
    ∃ q, HandedOut start s.pmm q ∧ x / 4096 = q.toNat

/-- The headers of a list are aligned. -/
def AlignedBlocks (l : List Block) : Prop := ∀ b ∈ l, b.addr.toNat % 8 = 0

section

variable {start : Pmm} {s : Heap} {live : Set U32} {l l' pre post : List Block} {b c : Block}
  {n size first got ptr : U32} {r : U32 × Heap}

/-! ### Rounding up -/

/-- Clearing the last three bits. -/
theorem toNat_and_not_seven (x : U32) : (x &&& ~~~7#32).toNat = x.toNat / 8 * 8 := by
  have hbit (i : ℕ) (hi : i < 32) : (7#32).getLsbD i = decide (i < 3) := by decide +revert
  have hshift : x &&& ~~~7#32 = x >>> 3 <<< 3 := by
    ext i hi
    rw [← BitVec.getLsbD_eq_getElem, ← BitVec.getLsbD_eq_getElem, BitVec.getLsbD_and,
      BitVec.getLsbD_not, hbit i hi, BitVec.getLsbD_shiftLeft, BitVec.getLsbD_ushiftRight]
    by_cases hlow : i < 3
    · simp [hlow]
    · simp [hlow, hi, show 3 + (i - 3) = i by omega]
  rw [hshift, BitVec.toNat_shiftLeft, BitVec.toNat_ushiftRight, Nat.shiftRight_eq_div_pow,
    Nat.shiftLeft_eq]
  have hlt := x.isLt
  omega

/-- Rounding up to a multiple of 8, with the wraparound of the sum. -/
theorem toNat_alignUp (n : U32) : (alignUp n alignment).toNat = (n.toNat + 7) % 2 ^ 32 / 8 * 8 := by
  have hadd : n + alignment - 1#32 = n + 7#32 := by
    unfold alignment
    bv_omega
  have hmask : alignment - 1#32 = 7#32 := by decide
  unfold alignUp
  rw [hadd, hmask, toNat_and_not_seven, BitVec.toNat_add]
  rfl

/-- A request up to the last multiple is rounded up. -/
theorem le_alignUp (h : n ≤ maxRequest) : n ≤ alignUp n alignment := by
  have hround := toNat_alignUp n
  unfold maxRequest at h
  bv_omega

/-- A greater request is rounded to nothing. -/
theorem alignUp_eq_zero (h : ¬ n ≤ maxRequest) : alignUp n alignment = 0#32 := by
  have hround := toNat_alignUp n
  have hlt := n.isLt
  unfold maxRequest at h
  bv_omega

/-! ### The headers stay aligned -/

/-- Two lists have aligned blocks when each of them has. -/
theorem alignedBlocks_append : AlignedBlocks (l ++ l') ↔ AlignedBlocks l ∧ AlignedBlocks l' :=
  List.forall_mem_append

/-- A list has aligned blocks when its first block and the rest have. -/
theorem alignedBlocks_cons : AlignedBlocks (b :: l) ↔ b.addr.toNat % 8 = 0 ∧ AlignedBlocks l :=
  List.forall_mem_cons

/-- The new block starts at a page. -/
theorem alignedBlocks_newBlock (first got : U32) : AlignedBlocks [newBlock first got] := by
  intro b hb
  obtain rfl := List.mem_singleton.mp hb
  change (first <<< 12).toNat % 8 = 0
  rw [BitVec.toNat_shiftLeft, Nat.shiftLeft_eq]
  omega

/-- A leftover is aligned when the request is. -/
theorem alignedBlocks_carve (hb : b.addr.toNat % 8 = 0) (hsize : size.toNat % 8 = 0) :
    AlignedBlocks (b.carve size) := by
  unfold Block.carve
  split_ifs
  · intro c hc
    rcases List.mem_cons.mp hc with rfl | hc
    · exact hb
    · obtain rfl := List.mem_singleton.mp hc
      change (b.addr + 16#32 + size).toNat % 8 = 0
      bv_omega
  · intro c hc
    obtain rfl := List.mem_singleton.mp hc
    exact hb

/-- Merging with the next block keeps the addresses aligned. -/
theorem alignedBlocks_mergeNext (h : AlignedBlocks (b :: post)) :
    AlignedBlocks (mergeNext b post) := by
  cases post with
  | nil => exact h
  | cons c post =>
    rw [mergeNext_cons]
    split_ifs
    · obtain ⟨hb, hrest⟩ := alignedBlocks_cons.mp h
      exact alignedBlocks_cons.mpr ⟨hb, (alignedBlocks_cons.mp hrest).2⟩
    · exact h

/-- Giving a block back keeps the addresses aligned. -/
theorem alignedBlocks_release (h : AlignedBlocks (pre ++ b :: post)) :
    AlignedBlocks (release pre b post) := by
  obtain ⟨hpre, hrest⟩ := alignedBlocks_append.mp h
  have hnext : AlignedBlocks (mergeNext { b with free := true } post) :=
    alignedBlocks_mergeNext (alignedBlocks_cons.mpr
      ⟨(alignedBlocks_cons.mp hrest).1, (alignedBlocks_cons.mp hrest).2⟩)
  unfold release
  rcases List.eq_nil_or_concat pre with rfl | ⟨pre, a, rfl⟩
  · exact hnext
  · rw [List.concat_eq_append] at hpre ⊢
    obtain ⟨hpre, ha⟩ := alignedBlocks_append.mp hpre
    rw [mergePrev_concat]
    refine alignedBlocks_append.mpr ⟨hpre, alignedBlocks_mergeNext ?_⟩
    exact alignedBlocks_cons.mpr ⟨(alignedBlocks_cons.mp ha).1, hnext⟩

/-- `kmalloc` of a rounded size keeps the addresses aligned. -/
theorem KmallocSteps.alignedBlocks (hsteps : KmallocSteps s l size r l') (h : AlignedBlocks l)
    (hsize : size.toNat % 8 = 0) : AlignedBlocks l' := by
  cases hsteps with
  | found pre b post hl hfirst hfits =>
    subst hl
    obtain ⟨hpre, hrest⟩ := alignedBlocks_append.mp h
    obtain ⟨hb, hpost⟩ := alignedBlocks_cons.mp hrest
    exact alignedBlocks_append.mpr
      ⟨alignedBlocks_append.mpr ⟨hpre, alignedBlocks_carve hb hsize⟩, hpost⟩
  | grown first got s' =>
    have hnew := alignedBlocks_newBlock first got _ (.head _)
    exact alignedBlocks_append.mpr ⟨h, alignedBlocks_carve hnew hsize⟩
  | tooSmall first got s' =>
    exact alignedBlocks_append.mpr ⟨h, alignedBlocks_newBlock first got⟩
  | noPage => exact h

/-- Calls without a condition. -/
theorem Reachable.always (h : Reachable start s live) :
    ReachableWith start (fun _ _ => True) (fun _ _ => True) s live := by
  induction h with
  | init hpmm hinit => exact .init hpmm hinit
  | kmalloc _ n hrun ih => exact ih.kmalloc n trivial hrun
  | kfree _ ptr hptr ih => exact ih.kfree ptr hptr trivial
  | store _ ptr hptr i hi v ih => exact ih.store ptr hptr i hi v

/-- In every state that the heap reaches its headers are aligned. -/
theorem Reachable.aligned (h : Reachable start s live) (hpos : ∀ q, start.Free q → q ≠ 0#32) :
    ∃ l, HeapInv start s live l ∧ AlignedBlocks l := by
  refine h.always.invariant (P := fun _ l => AlignedBlocks l) hpos ?_ ?_ ?_ ?_
  · rintro s l - - (rfl | ⟨first, got, rfl⟩)
    · exact fun b hb => absurd hb List.not_mem_nil
    · exact alignedBlocks_newBlock first got
  · intro s live l n r l' hinv haligned _ _ _ hsteps
    have hround := toNat_alignUp n
    exact hsteps.alignedBlocks haligned (by omega)
  · intro s live pre b post hinv haligned _ _
    exact alignedBlocks_release haligned
  · exact fun _ haligned => haligned

/-! ### The bytes that were asked for -/

/-- The block of the pointer that `kmalloc` returns. -/
theorem KmallocSteps.block (hsteps : KmallocSteps s l size r l') :
    r.1 = 0#32 ∨ ∃ c ∈ l', c.addr + headerSize = r.1 ∧ size ≤ c.size := by
  have hcarve {b : Block} (hfits : b.Fits size) :
      ∃ c ∈ b.carve size, c.addr + headerSize = b.addr + headerSize ∧ size ≤ c.size := by
    unfold Block.carve
    split_ifs
    · exact ⟨_, .head _, rfl, BitVec.le_refl _⟩
    · exact ⟨_, .head _, rfl, hfits.2⟩
  cases hsteps with
  | found pre b post hl hfirst hfits =>
    obtain ⟨c, hc, hptr, hle⟩ := hcarve hfits
    exact .inr ⟨c, by simp [hc], hptr, hle⟩
  | grown first got s' hnone hpages hrepresents hused hcount hsize =>
    obtain ⟨c, hc, hptr, hle⟩ := hcarve (b := newBlock first got) ⟨rfl, hsize⟩
    exact .inr ⟨c, by simp [hc], hptr, hle⟩
  | tooSmall => exact .inl rfl
  | noPage => exact .inl rfl

/-- The size of a block stands in front of its payload. -/
theorem HeapInv.field_size (h : HeapInv start s live l) (hc : c ∈ l) :
    field s.mem (c.addr + headerSize - headerSize) .size = c.size := by
  obtain ⟨pre, post, rfl⟩ := List.append_of_mem hc
  rw [BitVec.add_sub_cancel]
  exact (linked_middle.mp h.represents.linked).2.1.size

/-- A block that is big enough gives what was asked for. -/
theorem HeapInv.gives (h : HeapInv start s live l) (haligned : AlignedBlocks l) (hc : c ∈ l)
    (hn : n ≤ c.size) : Gives start s n (c.addr + headerSize) := by
  have hmax := h.accounts.arranged.bounded c hc
  have haddr := haligned c hc
  unfold Block.stop at hmax
  have hptr : (c.addr + headerSize).toNat = c.addr.toNat + 16 := by
    unfold headerSize
    bv_omega
  refine ⟨?_, ?_, fun x hlo hhi => ?_⟩
  · apply BitVec.eq_of_toNat_eq
    rw [BitVec.toNat_umod, hptr]
    change (c.addr.toNat + 16) % 8 = 0
    omega
  · rw [h.field_size hc]
    exact hn
  · refine (h.accounts.covers x).mp ⟨c.segment, List.mem_map_of_mem hc, ?_⟩
    change c.addr.toNat ≤ x ∧ x < c.addr.toNat + 16 + c.size.toNat
    bv_omega

/-- A pointer that `kmalloc` returns gives what was asked for up to the greatest request that can be
rounded up, and never more than that. -/
theorem HeapInv.gives_iff (h : HeapInv start s live l) (haligned : AlignedBlocks l)
    (hpos : ∀ q, start.Free q → q ≠ 0#32) (hsteps : KmallocSteps s l (alignUp n alignment) r l')
    (hptr : r.1 ≠ 0#32) : Gives start r.2 n r.1 ↔ n ≤ maxRequest := by
  have hinv := (h.steps hpos hsteps).1
  have hround := toNat_alignUp n
  have haligned' := hsteps.alignedBlocks haligned (by omega)
  obtain ⟨c, hc, hblock, hle⟩ := hsteps.block.resolve_left hptr
  rw [← hblock]
  constructor
  · intro hgives
    have hsize := hgives.size_le
    rw [hinv.field_size hc] at hsize
    have hmax := hinv.accounts.arranged.bounded c hc
    unfold Block.stop at hmax
    unfold maxRequest
    bv_omega
  · intro hmax
    exact hinv.gives haligned' hc (BitVec.le_trans (le_alignUp hmax) hle)

/-- A request that is rounded to nothing fails only without a free block and without a free page. -/
theorem HeapInv.null_iff (h : HeapInv start s live l) (hpos : ∀ q, start.Free q → q ≠ 0#32)
    (hsteps : KmallocSteps s l 0#32 r l') :
    r.1 = 0#32 ↔ (∀ b ∈ l, b.free = false) ∧ ∀ q, ¬ s.pmm.Free q := by
  cases hsteps with
  | found pre b post hl hfirst hfits =>
    subst hl
    refine iff_of_false (h.accounts.arranged.payload_ne_zero (by simp)) ?_
    rintro ⟨hused, -⟩
    exact Bool.noConfusion (hfits.1.symm.trans (hused b (by simp)))
  | grown first got s' hnone hpages =>
    have harr := (h.accounts.extend hpos hpages).arranged
    refine iff_of_false (harr.payload_ne_zero (b := newBlock first got) (by simp)) ?_
    rintro ⟨-, hfull⟩
    exact hfull first (hpages.run.free first le_rfl (Nat.lt_add_of_pos_right hpages.pos))
  | tooSmall first got s' hnone hpages hrepresents hused hcount hsize =>
    exact absurd hsize BitVec.not_lt_zero
  | noPage hnone hpages =>
    refine iff_of_true rfl ⟨fun b hb => ?_, hpages⟩
    by_contra hfree
    exact hnone b hb ⟨by simpa using hfree, BitVec.not_lt.mp BitVec.not_lt_zero⟩

/-- What `kmalloc` gives. In every state that the heap reaches, the pointer that `kmalloc` returns
for a request is aligned, its header has a size of at least the request, and the bytes that were
asked for lie in pages of the heap, if and only if the request is at most the last multiple of 8, or
`kmalloc` fails because the heap has no free block and the page allocator no free page. -/
theorem kmalloc_gives_iff {m : Memory} {kernelEnd multibootInfoAddr : U32} {turns : ℕ} {boot : Pmm}
    (hinit : pmmInit m kernelEnd turns multibootInfoAddr boot = some start)
    (hreach : Reachable start s live) (hn : n ≠ 0#32) :
    ∃ ptr s' l, kmalloc n s = some (ptr, s') ∧ WellFormed start s live l ∧
      ((ptr ≠ 0#32 → Gives start s' n ptr) ↔
        n ≤ maxRequest ∨ (∀ b ∈ l, b.free = false) ∧ ∀ q, ¬ s.pmm.Free q) := by
  have hpos := free_ne_zero hinit
  obtain ⟨l, hinv, haligned⟩ := hreach.aligned hpos
  obtain ⟨⟨ptr, s'⟩, l', hrun, hsteps⟩ := hinv.kmalloc_steps hpos hn
  have hgives := hinv.gives_iff haligned hpos hsteps
  refine ⟨ptr, s', l, hrun, hinv.wellFormed, ?_⟩
  by_cases hmax : n ≤ maxRequest
  · exact iff_of_true (fun hptr => (hgives hptr).mpr hmax) (.inl hmax)
  · rw [alignUp_eq_zero hmax] at hsteps
    have hnull : ptr = 0#32 ↔ _ := hinv.null_iff hpos hsteps
    rw [or_iff_right hmax, ← hnull]
    refine ⟨fun h => ?_, fun hptr h => absurd hptr h⟩
    by_contra hptr
    exact hmax ((hgives hptr).mp (h hptr))

end

/-- After the boot with one region, a request for 100 bytes is given what it asked for. -/
theorem oneRegion_gives : ∃ start s ptr s',
    pmmInit oneRegion 0x180000#32 2 0x1000#32 ⟨fun _ => 0#8, 0#32⟩ = some start ∧
      Reachable start s ∅ ∧ kmalloc 100#32 s = some (ptr, s') ∧
      (ptr ≠ 0#32 → Gives start s' 100#32 ptr) := by
  obtain ⟨start, s, first, got, hinit, hrun, -⟩ := heapInit_oneRegion
  have hreach : Reachable start s ∅ := .init rfl hrun
  obtain ⟨ptr, s', l, hrun', -, hgives⟩ := kmalloc_gives_iff hinit hreach (n := 100#32) (by decide)
  exact ⟨start, s, ptr, s', hinit, hreach, hrun', hgives.mpr (.inl (by decide))⟩

/-- After that boot, a request for 2^32 - 1 bytes gets a pointer, to a block that is smaller. -/
theorem oneRegion_not_gives : ∃ start s ptr s',
    pmmInit oneRegion 0x180000#32 2 0x1000#32 ⟨fun _ => 0#8, 0#32⟩ = some start ∧
      Reachable start s ∅ ∧ kmalloc 0xFFFFFFFF#32 s = some (ptr, s') ∧ ptr ≠ 0#32 ∧
      ¬ Gives start s' 0xFFFFFFFF#32 ptr := by
  obtain ⟨start, s, first, got, hinit, hrun, hinv, -⟩ := heapInit_oneRegion
  have hpos := free_ne_zero hinit
  have haligned := alignedBlocks_newBlock first got
  obtain ⟨⟨ptr, s'⟩, l', hrun', hsteps⟩ := hinv.kmalloc_steps hpos (n := 0xFFFFFFFF#32) (by decide)
  have hgives := hinv.gives_iff haligned hpos hsteps
  have hptr : ptr ≠ 0#32 := by
    rw [alignUp_eq_zero (by decide)] at hsteps
    intro hnull
    obtain ⟨hused, -⟩ := (hinv.null_iff hpos hsteps).mp hnull
    exact Bool.noConfusion (hused _ (.head _))
  refine ⟨start, s, ptr, s', hinit, .init rfl hrun, hrun', hptr, fun h => ?_⟩
  exact absurd ((hgives hptr).mp h) (by decide)

end AlderKernel.Mm
