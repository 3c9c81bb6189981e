import AlderKernel.Mm.HeapRuns

/-!
# When `free_bytes` is exact

`free_bytes` is the sum of the free payloads as long as no `kmalloc` splits a block and
no `kfree` merges blocks, and each such step takes it away from that sum.
-/

namespace AlderKernel.Mm

open Machine

/-- The counter is the sum of the sizes of the free blocks. -/
def FreeBytesExact (start : Pmm) (s : Heap) (live : Set U32) : Prop :=
  ∃ l, WellFormed start s live l ∧ s.freeBytes.toNat = freeSize l

/-- A call of `kmalloc` that splits no block. -/
def KeepsWhole (s : Heap) (n : U32) : Prop :=
  n = 0#32 ∨ ∀ l, Represents s l → Arranged l → ¬ Splits l s.pmm (alignUp n alignment)

/-- A call of `kfree` that merges no blocks. -/
def KeepsApart (s : Heap) (ptr : U32) : Prop :=
  ∀ l, Represents s l → Arranged l → ¬ Merges l ptr

section

variable {start : Pmm} {s : Heap} {live : Set U32} {l pre post : List Block} {b : Block}
  {excess n : U32}

/-- A heap whose list has the counters is exact when they exceed the list by nothing. -/
theorem HeapInv.freeBytesExact_iff (h : HeapInv start s live l) (hcounts : Counts s l excess) :
    FreeBytesExact start s live ↔ excess = 0#32 := by
  have harr := h.accounts.arranged
  rw [← hcounts.exact_iff harr]
  constructor
  · rintro ⟨l', hwell, hexact⟩
    obtain rfl := hwell.unique h.wellFormed
    exact hexact
  · exact fun hexact => ⟨l, h.wellFormed, hexact⟩

/-- The counters after `kmalloc` of a nonzero size. -/
theorem HeapInv.counts_kmalloc (h : HeapInv start s live l) (hcounts : Counts s l excess)
    (hpos : ∀ q, start.Free q → q ≠ 0#32) {size : U32} {r : U32 × Heap} {l' : List Block}
    (hsteps : KmallocSteps s l size r l') :
    (Splits l s.pmm size → Counts r.2 l' (excess + 16#32)) ∧
      (¬ Splits l s.pmm size → Counts r.2 l' excess) :=
  hsteps.counts hcounts h.represents h.accounts.arranged
    (fun q hq => hpos q (h.accounts.freeBefore q hq)) fun _ hb _ hq => h.accounts.stop_le hb hq

/-- A place of a block in a list of blocks with different addresses. -/
theorem Arranged.middle_unique {pre' post' : List Block} {b' : Block}
    (h : Arranged (pre ++ b :: post)) (heq : pre ++ b :: post = pre' ++ b' :: post')
    (haddr : b'.addr = b.addr) : pre = pre' ∧ b = b' ∧ post = post' := by
  induction pre generalizing pre' with
  | nil =>
    cases pre' with
    | nil =>
      obtain ⟨rfl, rfl⟩ := List.cons.inj heq
      exact ⟨rfl, rfl, rfl⟩
    | cons a pre' =>
      obtain ⟨rfl, rfl⟩ := List.cons.inj heq
      exact absurd haddr (h.addr_ne (.inr (by simp)))
  | cons a pre ih =>
    cases pre' with
    | nil =>
      obtain ⟨rfl, rfl⟩ := List.cons.inj heq
      exact absurd haddr (h.addr_ne (.inl (by simp)))
    | cons a' pre' =>
      obtain ⟨rfl, hrest⟩ := List.cons.inj heq
      have htail : Arranged (pre ++ b :: post) := by
        obtain ⟨hasc, hmem⟩ := arranged_iff.mp h
        exact arranged_iff.mpr ⟨(List.pairwise_cons.mp hasc).2, fun t ht => hmem t (.tail _ ht)⟩
      obtain ⟨rfl, rfl, rfl⟩ := ih htail hrest
      exact ⟨rfl, rfl, rfl⟩

/-- The counters after `kfree` of a live pointer. -/
theorem HeapInv.counts_kfree (h : HeapInv start s live (pre ++ b :: post)) (hb : b.free = false)
    (hcounts : Counts s (pre ++ b :: post) 0#32) :
    ∃ excess, Counts (Mm.kfree (b.addr + headerSize) s) (Mm.release pre b post) excess ∧
      (excess = 0#32 ↔ ¬ Merges (pre ++ b :: post) (b.addr + headerSize)) := by
  have harr := h.accounts.arranged
  obtain ⟨k, hk, hle, hzero⟩ := length_release pre b post
  refine ⟨_, hcounts.kfree h.represents harr hb hk, ?_⟩
  have hmerges : Merges (pre ++ b :: post) (b.addr + headerSize) ↔ k ≠ 0 := by
    rw [Ne, hzero, not_not]
    constructor
    · rintro ⟨pre', b', post', hl, hptr, hmerge⟩
      have haddr : b'.addr = b.addr := (BitVec.add_left_inj headerSize).mp hptr
      obtain ⟨rfl, rfl, rfl⟩ := harr.middle_unique hl haddr
      exact hmerge
    · exact fun hmerge => ⟨pre, b, post, rfl, rfl, hmerge⟩
  rw [hmerges, not_not]
  constructor
  · intro hexcess
    bv_omega
  · rintro rfl
    rfl

/-- `free_bytes` over whole runs. As long as no `kmalloc` splits a block and no `kfree` merges
blocks it is the sum of the free payloads; a call that does makes it differ from that sum. -/
theorem freeBytes_exact {m : Memory} {kernelEnd multibootInfoAddr : U32} {turns : ℕ} {boot : Pmm}
    (hinit : pmmInit m kernelEnd turns multibootInfoAddr boot = some start)
    (hreach : ReachableWith start KeepsWhole KeepsApart s live) :
    FreeBytesExact start s live ∧
      (∀ n ptr s', kmalloc n s = some (ptr, s') →
        (FreeBytesExact start s' (if ptr = 0#32 then live else insert ptr live) ↔
          KeepsWhole s n)) ∧
      ∀ ptr ∈ live, FreeBytesExact start (kfree ptr s) (live \ {ptr}) ↔ KeepsApart s ptr := by
  have hpos := free_ne_zero hinit
  obtain ⟨l, hinv, hcounts⟩ := hreach.invariant (P := fun s l => Counts s l 0#32) hpos
    (fun s l _ hcounts _ => hcounts)
    (fun {s live l n r l'} hinv hcounts hmay hn _ hsteps =>
      (hinv.counts_kmalloc hcounts hpos hsteps).2
        (hmay.resolve_left hn l hinv.represents hinv.accounts.arranged))
    (fun {s live pre b post} hinv hcounts hmay hb => by
      obtain ⟨excess, hcounts', hexcess⟩ := hinv.counts_kfree hb hcounts
      obtain rfl := hexcess.mpr (hmay _ hinv.represents hinv.accounts.arranged)
      exact hcounts')
    fun m hcounts => ⟨hcounts.used, hcounts.free⟩
  have hlist {P : List Block → Prop} :
      (∀ l', Represents s l' → Arranged l' → P l') ↔ P l := by
    refine ⟨fun h => h l hinv.represents hinv.accounts.arranged, fun h l' hrep harr => ?_⟩
    rwa [hrep.unique hinv.represents harr hinv.accounts.arranged]
  refine ⟨(hinv.freeBytesExact_iff hcounts).mpr rfl, fun n ptr s' hrun => ?_, fun ptr hptr => ?_⟩
  · by_cases hn : n = 0#32
    · have hnull : kmalloc n s = some (0#32, s) := if_pos hn
      obtain ⟨rfl, rfl⟩ := Prod.mk.inj (Option.some.inj (hrun.symm.trans hnull))
      rw [if_pos rfl]
      exact ⟨fun _ => .inl hn, fun _ => (hinv.freeBytesExact_iff hcounts).mpr rfl⟩
    · obtain ⟨r, l', hrun', hsteps⟩ := hinv.kmalloc_steps hpos hn
      obtain rfl := Option.some.inj (hrun'.symm.trans hrun)
      have hinv' := (hinv.steps hpos hsteps).1
      obtain ⟨hsplit, hwhole⟩ := hinv.counts_kmalloc hcounts hpos hsteps
      unfold KeepsWhole
      rw [or_iff_right hn, hlist]
      by_cases hsplits : Splits l s.pmm (alignUp n alignment)
      · rw [hinv'.freeBytesExact_iff (hsplit hsplits)]
        exact ⟨fun hzero => absurd hzero (by decide), fun hnot => absurd hsplits hnot⟩
      · rw [hinv'.freeBytesExact_iff (hwhole hsplits)]
        exact ⟨fun _ => hsplits, fun _ => rfl⟩
  · obtain ⟨pre, b, post, rfl, hb, rfl⟩ := hinv.split_live hptr
    obtain ⟨excess, hcounts', hexcess⟩ := hinv.counts_kfree hb hcounts
    unfold KeepsApart
    rw [(hinv.release hb).freeBytesExact_iff hcounts', hexcess, hlist]

end

/-- A list of one block is split at that block only. -/
theorem split_singleton {b c : Block} {pre post : List Block} (h : [c] = pre ++ b :: post) :
    pre = [] ∧ b = c ∧ post = [] := by
  obtain ⟨rfl, hpost⟩ | ⟨-, hnil⟩ := List.append_eq_singleton_iff.mp h.symm
  · exact ⟨rfl, List.cons.inj hpost⟩
  · exact absurd hnil (List.cons_ne_nil _ _)

/-- A block without neighbours merges with none. -/
theorem not_merges_singleton (b : Block) (ptr : U32) : ¬ Merges [b] ptr := by
  rintro ⟨pre, c, post, hl, -, hmerge⟩
  obtain ⟨rfl, rfl, rfl⟩ := split_singleton hl
  simp at hmerge

/-- After the boot with one region a `kmalloc` of 65496 bytes takes the whole block of the heap. -/
theorem kmallocWhole_oneRegion : ∃ start s l ptr s' b,
    pmmInit oneRegion 0x180000#32 2 0x1000#32 ⟨fun _ => 0#8, 0#32⟩ = some start ∧
      heapInit ⟨oneRegion, start, 0#32, 0#32, 0#32⟩ = some s ∧ HeapInv start s ∅ l ∧
      ¬ Splits l s.pmm (alignUp 65496#32 alignment) ∧
      kmalloc 65496#32 s = some (ptr, s') ∧ ptr ≠ 0#32 ∧ HeapInv start s' {ptr} [b] := by
  obtain ⟨start, s, first, got, hinit, hrun, hinv, -, hpages⟩ := heapInit_oneRegion
  have hpos := free_ne_zero hinit
  have hgot : got.toNat = 16 := (obtains_oneRegion hinit hpages).2.1
  have hsize := size_newBlock hpages
  have halign : (alignUp 65496#32 alignment).toNat = 65496 := by decide
  have hfits : (newBlock first got).Fits (alignUp 65496#32 alignment) := ⟨rfl, by bv_omega⟩
  have hwhole : ¬ alignUp 65496#32 alignment + 32#32 ≤ (newBlock first got).size := by bv_omega
  have hfound : Splits ([] ++ [newBlock first got]) s.pmm (alignUp 65496#32 alignment) ↔ _ :=
    splits_found (by simp) hfits s.pmm
  obtain ⟨⟨ptr, s'⟩, l', hrun', hsteps⟩ := hinv.kmalloc_steps hpos (n := 65496#32) (by decide)
  obtain ⟨hinv', -⟩ := hinv.steps hpos hsteps
  obtain ⟨pre, b, post, hl, -, hr, rfl⟩ := hsteps.of_fits ⟨_, List.mem_singleton_self _, hfits⟩
  obtain ⟨rfl, rfl, rfl⟩ := split_singleton hl
  rw [carve_eq, if_neg hwhole, List.nil_append, List.append_nil] at hinv'
  have hpayload := hinv'.accounts.arranged.payload_ne_zero (List.mem_singleton_self _)
  have hptr : ptr ≠ 0#32 := by
    rw [show ptr = _ from congrArg Prod.fst hr]
    exact hpayload
  exact ⟨start, s, _, ptr, s', _, hinit, hrun, hinv, mt hfound.mp hwhole, hrun', hptr,
    by simpa [hptr] using hinv'⟩

/-- After the boot with one region a `kmalloc` of 65496 bytes takes the whole block of the heap, and
`kfree` gives it back whole: the counter is exact after the one and after the other. -/
theorem oneRegion_freeBytes : ∃ start s ptr,
    pmmInit oneRegion 0x180000#32 2 0x1000#32 ⟨fun _ => 0#8, 0#32⟩ = some start ∧ ptr ≠ 0#32 ∧
      ReachableWith start KeepsWhole KeepsApart s {ptr} ∧ FreeBytesExact start s {ptr} ∧
      ReachableWith start KeepsWhole KeepsApart (kfree ptr s) ({ptr} \ {ptr}) ∧
      FreeBytesExact start (kfree ptr s) ({ptr} \ {ptr}) := by
  obtain ⟨start, s, l, ptr, s', b, hinit, hrun, hinv, hwhole, hrun', hptr, hinv'⟩ :=
    kmallocWhole_oneRegion
  have hkeeps : KeepsWhole s 65496#32 := .inr fun l' hrep harr => by
    rwa [hrep.unique hinv.represents harr hinv.accounts.arranged]
  have hapart : KeepsApart s' ptr := fun l' hrep harr => by
    rw [hrep.unique hinv'.represents harr hinv'.accounts.arranged]
    exact not_merges_singleton b ptr
  have hreach : ReachableWith start KeepsWhole KeepsApart s' {ptr} := by
    simpa [hptr] using (ReachableWith.init rfl hrun).kmalloc 65496#32 hkeeps hrun'
  have hback := hreach.kfree ptr (.inr rfl) hapart
  exact ⟨start, s', ptr, hinit, hptr, hreach, (freeBytes_exact hinit hreach).1, hback,
    (freeBytes_exact hinit hback).1⟩

/-- The first allocation after `heap_init` splits the block of the heap, and `free_bytes` is not
exact any more. -/
theorem firstSplit_freeBytes : ∃ start s ptr s',
    pmmInit oneRegion 0x180000#32 2 0x1000#32 ⟨fun _ => 0#8, 0#32⟩ = some start ∧
      Reachable start s ∅ ∧ kmalloc 100#32 s = some (ptr, s') ∧
      ¬ FreeBytesExact start s' (if ptr = 0#32 then ∅ else insert ptr ∅) := by
  obtain ⟨start, s, first, got, hinit, hrun, hinv, hcounts, hpages⟩ := heapInit_oneRegion
  have hpos := free_ne_zero hinit
  have hsize := size_newBlock hpages
  have hgot := hpages.pos
  have halign : (alignUp 100#32 alignment).toNat = 104 := by decide
  have hfits := fits_oneRegion hpages
  obtain ⟨r, l', hrun', hsteps⟩ := hinv.kmalloc_steps hpos (n := 100#32) (by decide)
  have hsplits : Splits ([] ++ [newBlock first got]) s.pmm (alignUp 100#32 alignment) :=
    (splits_found (by simp) hfits _).mpr (by bv_omega)
  have hcounts' := (hinv.counts_kmalloc hcounts hpos hsteps).1 hsplits
  refine ⟨start, s, r.1, r.2, hinit, .init rfl hrun, hrun', fun hexact => ?_⟩
  exact absurd (((hinv.steps hpos hsteps).1.freeBytesExact_iff hcounts').mp hexact) (by decide)

end AlderKernel.Mm
