import AlderKernel.Mm.Coalescing
import AlderKernel.Mm.FreeBytes

/-!
# Freeing everything

When no request has failed, freeing all live allocations leaves the same heap in any order:
one free block for each maximal run of heap pages.
-/

namespace AlderKernel.Mm

open Machine Segments

/-- A call of `kmalloc` that asks for nothing or gets what it asks for. -/
def Succeeds (s : Heap) (n : U32) : Prop :=
  n = 0#32 ∨ ∃ ptr s', kmalloc n s = some (ptr, s') ∧ ptr ≠ 0#32

/-- Free several pointers, one after the other. -/
def freeAll (ptrs : List U32) (s : Heap) : Heap := ptrs.foldl (fun s ptr => kfree ptr s) s

/-- The heap has got the page from the page allocator. -/
def HeapPage (start now : Pmm) (q : ℕ) : Prop := ∃ page, HandedOut start now page ∧ page.toNat = q

/-- The pages from `lo` up to `hi` belong to the heap, and neither the page in front of them nor the
page behind them does. -/
structure MaximalRun (start now : Pmm) (lo hi : ℕ) : Prop where
  lt : lo < hi
  inside : ∀ q, lo ≤ q → q < hi → HeapPage start now q
  front : ∀ q, q + 1 = lo → ¬ HeapPage start now q
  behind : ¬ HeapPage start now hi

/-- The block fills the pages from `lo` up to `hi`. -/
structure Block.Fills (b : Block) (lo hi : ℕ) : Prop where
  addr : b.addr.toNat = lo * 4096
  size : b.size.toNat = (hi - lo) * 4096 - 16

/-- The list has exactly one block for each maximal run of heap pages, and all are free. -/
structure OneFreeBlockPerRun (start now : Pmm) (l : List Block) : Prop where
  free : ∀ b ∈ l, b.free = true
  increasing : l.Pairwise fun b c => b.addr < c.addr
  run : ∀ b ∈ l, ∃ lo hi, MaximalRun start now lo hi ∧ b.Fills lo hi
  block : ∀ lo hi, MaximalRun start now lo hi → ∃ b ∈ l, b.Fills lo hi

section

variable {start now : Pmm} {s : Heap} {live : Set U32} {l l' : List Block} {b : Block}

/-- Free blocks without mergeable neighbours have gaps between them. -/
theorem separated_of_coalesced (harr : Arranged l) (hfree : ∀ b ∈ l, b.free = true)
    (h : Coalesced l) : Separated (l.map Block.segment) := by
  refine separated_of_isChain (List.isChain_iff_getElem.mpr fun i hi => ?_)
  simp only [List.getElem_map, List.length_map] at hi ⊢
  have hasc := List.pairwise_map.mp harr.ascending
  have hle : l[i].stop ≤ l[i + 1].addr.toNat :=
    List.pairwise_iff_getElem.mp hasc i (i + 1) _ hi (Nat.lt_succ_self i)
  refine lt_of_le_of_ne hle fun hmeet => List.isChain_iff_getElem.mp h i hi ⟨?_, ?_, hmeet⟩
  · exact hfree _ (List.getElem_mem _)
  · exact hfree _ (List.getElem_mem _)

/-- A free block is decided by its segment. -/
theorem eq_of_segments (hfree : ∀ b ∈ l, b.free = true) (hfree' : ∀ b ∈ l', b.free = true)
    (h : l.map Block.segment = l'.map Block.segment) : l = l' := by
  let rebuild (s : Segment ℕ) : Block :=
    ⟨BitVec.ofNat 32 s.lo, BitVec.ofNat 32 (s.hi - s.lo - 16), true⟩
  have hrebuild {l : List Block} (hfree : ∀ b ∈ l, b.free = true) :
      (l.map Block.segment).map rebuild = l := by
    rw [List.map_map]
    refine (List.map_congr_left fun b hb => ?_).trans (List.map_id l)
    obtain ⟨addr, size, free⟩ := b
    obtain rfl : free = true := hfree _ hb
    have hsize : addr.toNat + 16 + size.toNat - addr.toNat - 16 = size.toNat := by omega
    change (⟨BitVec.ofNat 32 addr.toNat,
      BitVec.ofNat 32 (addr.toNat + 16 + size.toNat - addr.toNat - 16), true⟩ : Block) = _
    rw [hsize, BitVec.ofNat_toNat, BitVec.ofNat_toNat]
    simp
  rw [← hrebuild hfree, h, hrebuild hfree']

/-- The block of a byte fills a maximal run of pages, when the blocks have gaps between them. -/
theorem Accounts.maximalRun (h : Accounts start now live l)
    (hgap : Separated (l.map Block.segment)) (hb : b ∈ l) :
    ∃ lo hi, MaximalRun start now lo hi ∧ b.Fills lo hi := by
  have hmem (x : ℕ) : x ∈ occupied l ↔ HeapPage start now (x / 4096) := by
    rw [h.covers x]
    exact exists_congr fun q => and_congr_right fun _ => eq_comm
  have hsegment : b.segment ∈ l.map Block.segment := List.mem_map_of_mem hb
  have hinside (x : ℕ) (hlo : b.addr.toNat ≤ x) (hhi : x < b.stop) : x ∈ occupied l :=
    ⟨b.segment, hsegment, hlo, hhi⟩
  have hfront (x : ℕ) (hx : x + 1 = b.addr.toNat) : x ∉ occupied l :=
    hgap.notMem_of_covBy hsegment (Order.covBy_iff_add_one_eq.mpr hx)
  have hbehind : b.stop ∉ occupied l := hgap.hi_notMem hsegment
  have hstop : b.stop = b.addr.toNat + 16 + b.size.toNat := rfl
  -- Bytes of one page are occupied together, so the block starts and ends with a page.
  have halignedLo : b.addr.toNat % 4096 = 0 := by
    by_contra hmod
    refine hfront (b.addr.toNat - 1) (by omega) ((hmem _).mpr ?_)
    rw [show (b.addr.toNat - 1) / 4096 = b.addr.toNat / 4096 by omega]
    exact (hmem _).mp (hinside _ le_rfl (by omega))
  have halignedHi : b.stop % 4096 = 0 := by
    by_contra hmod
    refine hbehind ((hmem _).mpr ?_)
    rw [show b.stop / 4096 = (b.stop - 1) / 4096 by omega]
    exact (hmem _).mp (hinside _ (by omega) (by omega))
  refine ⟨b.addr.toNat / 4096, b.stop / 4096, ⟨by omega, fun q hlo hhi => ?_, fun q hq hpage => ?_,
    fun hpage => ?_⟩, by omega, by omega⟩
  · have hq := (hmem (q * 4096)).mp (hinside _ (by omega) (by omega))
    rwa [Nat.mul_div_cancel _ (by decide)] at hq
  · refine hfront (b.addr.toNat - 1) (by omega) ((hmem _).mpr ?_)
    rwa [show (b.addr.toNat - 1) / 4096 = q by omega]
  · exact hbehind ((hmem _).mpr hpage)

/-- Maximal runs that share a page are the same. -/
theorem MaximalRun.unique {lo hi lo' hi' q : ℕ} (h : MaximalRun start now lo hi)
    (h' : MaximalRun start now lo' hi') (hq : lo ≤ q ∧ q < hi) (hq' : lo' ≤ q ∧ q < hi') :
    lo = lo' ∧ hi = hi' := by
  have hlo {lo hi lo' hi' : ℕ} (h : MaximalRun start now lo hi) (h' : MaximalRun start now lo' hi')
      (hq : lo ≤ q ∧ q < hi) (hq' : lo' ≤ q ∧ q < hi') : lo ≤ lo' ∧ hi' ≤ hi := by
    constructor
    · by_contra hlt
      exact h.front (lo - 1) (by omega) (h'.inside _ (by omega) (by omega))
    · by_contra hlt
      exact h.behind (h'.inside _ (by omega) (by omega))
  obtain ⟨hle, hle'⟩ := hlo h h' hq hq'
  obtain ⟨hge, hge'⟩ := hlo h' h hq' hq
  exact ⟨Nat.le_antisymm hle hge, Nat.le_antisymm hge' hle'⟩

/-- A list of free blocks without mergeable neighbours has one block for each run of pages. -/
theorem HeapInv.oneFreeBlockPerRun (h : HeapInv start s live l) (hfree : ∀ b ∈ l, b.free = true)
    (hcoalesced : Coalesced l) : OneFreeBlockPerRun start s.pmm l := by
  have hgap := separated_of_coalesced h.accounts.arranged hfree hcoalesced
  refine ⟨hfree, h.wellFormed.increasing, fun b hb => h.accounts.maximalRun hgap hb,
    fun lo hi hrun => ?_⟩
  obtain ⟨page, hpage, hlo⟩ := hrun.inside lo le_rfl hrun.lt
  obtain ⟨t, ht, hx⟩ := (h.accounts.covers (lo * 4096)).mpr ⟨page, hpage, by omega⟩
  obtain ⟨b, hb, rfl⟩ := List.mem_map.mp ht
  obtain ⟨lo', hi', hrun', hfills⟩ := h.accounts.maximalRun hgap hb
  have hbounds : b.addr.toNat ≤ lo * 4096 ∧ lo * 4096 < b.addr.toNat + 16 + b.size.toNat := hx
  have hlt' := hrun'.lt
  have haddr := hfills.addr
  have hsize := hfills.size
  obtain ⟨rfl, rfl⟩ := hrun.unique hrun' (q := lo) ⟨le_rfl, hrun.lt⟩ ⟨by omega, by omega⟩
  exact ⟨b, hb, hfills⟩

/-- `kfree` moves the freed size from one counter to the other and leaves the page allocator
alone. -/
theorem kfree_counters (ptr : U32) (s : Heap) : (kfree ptr s).pmm = s.pmm ∧
    (kfree ptr s).freeBytes + (kfree ptr s).usedBytes = s.freeBytes + s.usedBytes := by
  unfold kfree
  split_ifs with hnull
  · exact ⟨rfl, rfl⟩
  · refine ⟨rfl, ?_⟩
    dsimp only
    bv_omega

/-- Freeing all live pointers in some order. -/
theorem HeapInv.freeAll {excess : U32} (ptrs : List U32) (h : HeapInv start s live l)
    (hcoalesced : Coalesced l) (hcounts : Counts s l excess) (hnodup : ptrs.Nodup)
    (hptrs : ∀ ptr, ptr ∈ ptrs ↔ ptr ∈ live) :
    ∃ l' excess', HeapInv start (freeAll ptrs s) ∅ l' ∧ Coalesced l' ∧
      Counts (freeAll ptrs s) l' excess' ∧ (freeAll ptrs s).pmm = s.pmm ∧
      (freeAll ptrs s).freeBytes + (freeAll ptrs s).usedBytes = s.freeBytes + s.usedBytes := by
  induction ptrs generalizing s live l excess with
  | nil =>
    obtain rfl : live = ∅ := Set.eq_empty_of_forall_notMem fun ptr hptr =>
      absurd ((hptrs ptr).mpr hptr) List.not_mem_nil
    exact ⟨l, excess, h, hcoalesced, hcounts, rfl, rfl⟩
  | cons ptr ptrs ih =>
    obtain ⟨hptr, hrestNodup⟩ := List.nodup_cons.mp hnodup
    obtain ⟨pre, b, post, rfl, hb, rfl⟩ := h.split_live ((hptrs ptr).mp (.head _))
    have harr := h.accounts.arranged
    obtain ⟨k, hk, -⟩ := length_release pre b post
    obtain ⟨hpmm, hsum⟩ := kfree_counters (b.addr + headerSize) s
    have hrest (q : U32) : q ∈ ptrs ↔ q ∈ live \ {b.addr + headerSize} := by
      rw [Set.mem_sdiff, Set.mem_singleton_iff, ← hptrs q, List.mem_cons]
      constructor
      · intro hq
        exact ⟨.inr hq, fun heq => hptr (heq ▸ hq)⟩
      · rintro ⟨rfl | hq, hne⟩
        · exact absurd rfl hne
        · exact hq
    obtain ⟨l', excess', hinv, hcoalesced', hcounts', hpmm', hsum'⟩ := ih (h.release hb)
      (coalesced_release hcoalesced harr) (hcounts.kfree h.represents harr hb hk) hrestNodup
      hrest
    exact ⟨l', excess', hinv, hcoalesced', hcounts', hpmm'.trans hpmm, hsum'.trans hsum⟩

/-- Without live pointers all blocks are free. -/
theorem HeapInv.all_free (h : HeapInv start s ∅ l) (b : Block) (hb : b ∈ l) : b.free = true := by
  by_contra hused
  have hmem : b ∈ inUse l := List.mem_filter.mpr ⟨hb, by simpa using hused⟩
  exact (h.accounts.live (b.addr + headerSize)).mpr ⟨b, hmem, rfl⟩

/-- Without live pointers nothing is in use. -/
theorem HeapInv.usedSize_eq_zero (h : HeapInv start s ∅ l) : usedSize l = 0 := by
  have hnone : inUse l = [] := List.filter_eq_nil_iff.mpr fun b hb => by simp [h.all_free b hb]
  rw [usedSize, hnone]
  rfl

/-- The live pointers, in the order of the list. -/
theorem HeapInv.livePointers (h : HeapInv start s live l) :
    ∃ ptrs : List U32, ptrs.Nodup ∧ ∀ ptr, ptr ∈ ptrs ↔ ptr ∈ live := by
  refine ⟨(inUse l).map fun b => b.addr + headerSize, ?_, fun ptr => ?_⟩
  · refine List.pairwise_map.mpr ((h.wellFormed.increasing.filter _).imp fun {b c} hlt heq => ?_)
    rw [(BitVec.add_left_inj headerSize).mp heq] at hlt
    exact BitVec.lt_irrefl _ hlt
  · rw [h.accounts.live ptr, List.mem_map]

/-- A run in which no request fails stays coalesced. -/
theorem ReachableWith.counted {mayFree : Heap → U32 → Prop}
    (hreach : ReachableWith start Succeeds mayFree s live) (hpos : ∀ q, start.Free q → q ≠ 0#32) :
    ∃ l, HeapInv start s live l ∧ Coalesced l ∧ ∃ excess, Counts s l excess := by
  refine hreach.invariant (P := fun s l => Coalesced l ∧ ∃ excess, Counts s l excess) hpos
    ?_ ?_ ?_ ?_
  · rintro s l - hcounts (rfl | ⟨first, got, rfl⟩)
    · exact ⟨List.isChain_nil, _, hcounts⟩
    · exact ⟨List.isChain_singleton _, _, hcounts⟩
  · rintro s live l n r l' hinv ⟨hcoalesced, excess, hcounts⟩ hmay hn hrun hsteps
    refine ⟨(hinv.coalesced_kmalloc hcoalesced hpos hsteps).mpr ?_, ?_⟩
    · obtain ⟨ptr, s', hrun', hptr⟩ := hmay.resolve_left hn
      obtain rfl := Option.some.inj (hrun.symm.trans hrun')
      exact hsteps.not_leavesNeighbour hptr
    · obtain ⟨hsplit, hwhole⟩ := hinv.counts_kmalloc hcounts hpos hsteps
      by_cases hsplits : Splits l s.pmm (alignUp n alignment)
      · exact ⟨_, hsplit hsplits⟩
      · exact ⟨_, hwhole hsplits⟩
  · rintro s live pre b post hinv ⟨hcoalesced, excess, hcounts⟩ - hb
    have harr := hinv.accounts.arranged
    obtain ⟨k, hk, -⟩ := length_release pre b post
    exact ⟨coalesced_release hcoalesced harr, _, hcounts.kfree hinv.represents harr hb hk⟩
  · rintro s l m ⟨hcoalesced, excess, hcounts⟩
    exact ⟨hcoalesced, excess, hcounts.used, hcounts.free⟩

/-- The order of frees does not matter. After a run in which no request failed there is one list
that every order of freeing all live pointers leads to: one free block for each maximal run of heap
pages. Nothing is in use then, and `free_bytes` is the same for every order. -/
theorem freeAll_order {m : Memory} {kernelEnd multibootInfoAddr : U32} {turns : ℕ} {boot : Pmm}
    (hinit : pmmInit m kernelEnd turns multibootInfoAddr boot = some start)
    (hreach : ReachableWith start Succeeds (fun _ _ => True) s live) :
    ∃ l, OneFreeBlockPerRun start s.pmm l ∧
      ∀ ptrs : List U32, ptrs.Nodup → (∀ ptr, ptr ∈ ptrs ↔ ptr ∈ live) →
        WellFormed start (freeAll ptrs s) ∅ l ∧ (freeAll ptrs s).usedBytes = 0#32 ∧
          (freeAll ptrs s).freeBytes = s.freeBytes + s.usedBytes := by
  obtain ⟨l₀, hinv₀, hcoalesced₀, excess, hcounts₀⟩ := hreach.counted (free_ne_zero hinit)
  obtain ⟨ptrs₀, hnodup₀, hptrs₀⟩ := hinv₀.livePointers
  obtain ⟨l, -, hinv, hcoalesced, -, hpmm, -⟩ :=
    hinv₀.freeAll ptrs₀ hcoalesced₀ hcounts₀ hnodup₀ hptrs₀
  have hfree := hinv.all_free
  refine ⟨l, hpmm ▸ hinv.oneFreeBlockPerRun hfree hcoalesced, fun ptrs hnodup hptrs => ?_⟩
  obtain ⟨l', excess', hinv', hcoalesced', hcounts', hpmm', hsum⟩ :=
    hinv₀.freeAll ptrs hcoalesced₀ hcounts₀ hnodup hptrs
  have hsegments (b : Block) : b.segment.lo < b.segment.hi := by
    change b.addr.toNat < b.addr.toNat + 16 + b.size.toNat
    omega
  have hcovered : occupied l' = occupied l := by
    ext x
    rw [hinv'.accounts.covers, hinv.accounts.covers, hpmm, hpmm']
  obtain rfl : l' = l := by
    refine eq_of_segments hinv'.all_free hfree ?_
    exact (separated_of_coalesced hinv'.accounts.arranged hinv'.all_free hcoalesced').eq_of_covered
      (separated_of_coalesced hinv.accounts.arranged hfree hcoalesced)
      (List.forall_mem_map.mpr fun b _ => hsegments b)
      (List.forall_mem_map.mpr fun b _ => hsegments b) hcovered
  have hused : (Mm.freeAll ptrs s).usedBytes = 0#32 := by
    rw [hcounts'.used, hinv'.usedSize_eq_zero]
  rw [hused, BitVec.add_zero] at hsum
  exact ⟨hinv'.wellFormed, hused, hsum⟩

/-- After the boot with one region and two allocations, freeing them in the one order and in the
other leaves the same list. -/
theorem oneRegion_freeAll : ∃ start s ptr ptr' l,
    pmmInit oneRegion 0x180000#32 2 0x1000#32 ⟨fun _ => 0#8, 0#32⟩ = some start ∧ ptr' ≠ ptr ∧
      ReachableWith start Succeeds (fun _ _ => True) s {ptr', ptr} ∧
      OneFreeBlockPerRun start s.pmm l ∧ WellFormed start (freeAll [ptr, ptr'] s) ∅ l ∧
      WellFormed start (freeAll [ptr', ptr] s) ∅ l := by
  obtain ⟨start, s, ptr, s', ptr', s'', hinit, hrun, hrun', hptr, hrun'', hptr', hne⟩ :=
    kmallocTwice_oneRegion
  have hstart : ReachableWith start Succeeds (fun _ _ => True) s ∅ := .init rfl hrun
  have hone : ReachableWith start Succeeds (fun _ _ => True) s' {ptr} := by
    simpa [hptr] using hstart.kmalloc 100#32 (.inr ⟨ptr, s', hrun', hptr⟩) hrun'
  have htwo : ReachableWith start Succeeds (fun _ _ => True) s'' {ptr', ptr} := by
    simpa [hptr'] using hone.kmalloc 100#32 (.inr ⟨ptr', s'', hrun'', hptr'⟩) hrun''
  obtain ⟨l, hlist, hfreed⟩ := freeAll_order hinit htwo
  refine ⟨start, s'', ptr, ptr', l, hinit, hne, htwo, hlist, ?_, ?_⟩
  · exact (hfreed [ptr, ptr'] (by simp [hne.symm]) (by simp [or_comm])).1
  · exact (hfreed [ptr', ptr] (by simp [hne]) (by simp)).1

end

end AlderKernel.Mm
