import AlderKernel.Mm.MemoryMap

/-!
# The number of free pages

`free_pages_count` is the number of clear bits of the bitmap. It follows every
single update of the bitmap, by one and without wrapping.
-/

namespace AlderKernel.Mm

open Machine

/-- The clear bits among the 32768 bits of the bitmap: bit `k % 8` of byte `k / 8`. -/
def clearBits (bitmap : U32 → U8) : Finset ℕ :=
  {k ∈ Finset.range 32768 | (bitmap (BitVec.ofNat 32 (k / 8))).getLsbD (k % 8) = false}

/-- The counter is the number of clear bits. -/
def Pmm.Exact (p : Pmm) : Prop := p.freePagesCount.toNat = (clearBits p.bitmap).card

/-- One update of the bitmap: a clear bit is set or a set bit is cleared. The counter moves by
one, as a natural number. -/
inductive Moves (p : Pmm) : Pmm → Prop
  | reserve {page count : U32} (hfree : p.Free page)
      (hcount : count.toNat + 1 = p.freePagesCount.toNat) :
      Moves p ⟨bitmapSet p.bitmap page, count⟩
  | release {page count : U32} (hpage : page < maxPages)
      (hreserved : bitmapTest p.bitmap page = true)
      (hcount : count.toNat = p.freePagesCount.toNat + 1) :
      Moves p ⟨bitmapClear p.bitmap page, count⟩

/-- The states that `pmm_alloc_page` and `pmm_free_page`, with any addresses, reach. -/
inductive PmmReachable (start : Pmm) : Pmm → Prop
  | init : PmmReachable start start
  | alloc {p : Pmm} (h : PmmReachable start p) : PmmReachable start (pmmAllocPage p).2
  | free {p : Pmm} (h : PmmReachable start p) (addr : U32) :
      PmmReachable start (pmmFreePage addr p)

section

variable {p p' : Pmm} {page q : U32}

/-- The clear bits of the bitmap are those of the free pages. -/
theorem mem_clearBits : page.toNat ∈ clearBits p.bitmap ↔ p.Free page := by
  have hbyte : BitVec.ofNat 32 (page.toNat / 8) = page / 8#32 := by
    refine BitVec.eq_of_toNat_eq ?_
    rw [BitVec.toNat_udiv, BitVec.toNat_ofNat]
    exact Nat.mod_eq_of_lt ((Nat.div_le_self _ _).trans_lt page.isLt)
  have hmax : page < maxPages ↔ page.toNat < 32768 := BitVec.lt_def
  unfold clearBits Pmm.Free
  rw [Finset.mem_filter, Finset.mem_range, hbyte, bitmapTest_eq, hmax, BitVec.toNat_umod]
  rfl

/-- Every clear bit is that of a free page. -/
theorem exists_free_of_mem_clearBits {k : ℕ} (hk : k ∈ clearBits p.bitmap) :
    ∃ page, p.Free page ∧ page.toNat = k := by
  have hlt : k < 32768 := Finset.mem_range.mp (Finset.mem_filter.mp hk).1
  have hpage : (BitVec.ofNat 32 k).toNat = k := by
    rw [BitVec.toNat_ofNat]
    omega
  exact ⟨BitVec.ofNat 32 k, mem_clearBits.mp (hpage.symm ▸ hk), hpage⟩

/-- There are at most 32768 clear bits. -/
theorem card_clearBits_le (bitmap : U32 → U8) : (clearBits bitmap).card ≤ 32768 := by
  simpa [clearBits] using Finset.card_filter_le (Finset.range 32768)
    fun k => (bitmap (BitVec.ofNat 32 (k / 8))).getLsbD (k % 8) = false

/-- Bitmaps with the same free pages have the same clear bits, up to one page. -/
theorem clearBits_eq_insert (hfree : p.Free page)
    (hrest : ∀ q, p'.Free q ↔ p.Free q ∧ q ≠ page) :
    clearBits p.bitmap = insert page.toNat (clearBits p'.bitmap) ∧
      page.toNat ∉ clearBits p'.bitmap := by
  have hout : page.toNat ∉ clearBits p'.bitmap := fun hmem =>
    ((hrest page).mp (mem_clearBits.mp hmem)).2 rfl
  refine ⟨Finset.ext fun k => ?_, hout⟩
  rw [Finset.mem_insert]
  constructor
  · intro hk
    obtain ⟨q, hq, rfl⟩ := exists_free_of_mem_clearBits hk
    by_cases hne : q = page
    · exact .inl (congrArg BitVec.toNat hne)
    · exact .inr (mem_clearBits.mpr ((hrest q).mpr ⟨hq, hne⟩))
  · rintro (rfl | hk)
    · exact mem_clearBits.mpr hfree
    · obtain ⟨q, hq, rfl⟩ := exists_free_of_mem_clearBits hk
      exact mem_clearBits.mpr ((hrest q).mp hq).1

/-- Taking one page out of the free ones makes one clear bit less. -/
theorem card_clearBits (hfree : p.Free page) (hrest : ∀ q, p'.Free q ↔ p.Free q ∧ q ≠ page) :
    (clearBits p.bitmap).card = (clearBits p'.bitmap).card + 1 := by
  obtain ⟨heq, hout⟩ := clearBits_eq_insert hfree hrest
  rw [heq, Finset.card_insert_of_notMem hout]

/-- Where a page is free, the counter is not zero. -/
theorem Pmm.Exact.pos (h : p.Exact) (hfree : p.Free page) : 0 < p.freePagesCount.toNat := by
  rw [h]
  exact Finset.card_pos.mpr ⟨_, mem_clearBits.mpr hfree⟩

/-- The counter is zero where no page is free, and only there. -/
theorem Pmm.Exact.count_eq_zero_iff (h : p.Exact) :
    p.freePagesCount = 0#32 ↔ ∀ q, ¬ p.Free q := by
  constructor
  · intro hzero q hq
    have hpos := h.pos hq
    rw [hzero] at hpos
    exact absurd hpos (by decide)
  · intro hnone
    refine BitVec.eq_of_toNat_eq ?_
    rw [h, Finset.card_eq_zero.mpr]
    · rfl
    · refine Finset.eq_empty_of_forall_notMem fun k hk => ?_
      obtain ⟨q, hq, -⟩ := exists_free_of_mem_clearBits hk
      exact hnone q hq

/-- A released page was not free before. -/
theorem free_of_release (hpage : page < maxPages) (hreserved : bitmapTest p.bitmap page = true)
    (count : U32) : (⟨bitmapClear p.bitmap page, count⟩ : Pmm).Free page ∧
      ∀ q, p.Free q ↔ (⟨bitmapClear p.bitmap page, count⟩ : Pmm).Free q ∧ q ≠ page := by
  refine ⟨(free_bitmapClear _ hpage).mpr (.inr rfl), fun q => ?_⟩
  rw [free_bitmapClear _ hpage]
  constructor
  · intro hq
    refine ⟨.inl hq, ?_⟩
    rintro rfl
    exact absurd hreserved (by simp [hq.2])
  · rintro ⟨hq | rfl, hne⟩
    · exact hq
    · exact absurd rfl hne

/-- An update keeps the counter exact. -/
theorem Moves.exact (h : Moves p p') (hexact : p.Exact) : p'.Exact := by
  unfold Pmm.Exact at hexact ⊢
  cases h with
  | reserve hfree hcount =>
    have hcard := card_clearBits hfree fun q => free_bitmapSet (p := p) 0#32
    rw [hcard] at hexact
    exact Nat.succ_injective (hcount.trans hexact)
  | release hpage hreserved hcount =>
    obtain ⟨hfree, hrest⟩ := free_of_release hpage hreserved 0#32
    have hcard := card_clearBits hfree hrest
    rw [hcount, hexact]
    exact hcard.symm

/-- Sequences of updates keep the counter exact. -/
theorem exact_of_moves (h : Relation.ReflTransGen Moves p p') (hexact : p.Exact) : p'.Exact := by
  induction h with
  | refl => exact hexact
  | tail _ hmove ih => exact hmove.exact ih

/-- Setting the bit of a free page moves the counter down. -/
theorem Pmm.Exact.reserve_moves (h : p.Exact) (hfree : p.Free page) :
    Moves p ⟨bitmapSet p.bitmap page, p.freePagesCount - 1#32⟩ := by
  have hpos := h.pos hfree
  exact .reserve hfree (by bv_omega)

/-- Clearing the bit of a reserved page moves the counter up. -/
theorem Pmm.Exact.release_moves (h : p.Exact) (hpage : page < maxPages)
    (hreserved : bitmapTest p.bitmap page = true) :
    Moves p ⟨bitmapClear p.bitmap page, p.freePagesCount + 1#32⟩ := by
  have hcard := card_clearBits_le p.bitmap
  unfold Pmm.Exact at h
  exact .release hpage hreserved (by bv_omega)

/-- `reserve_page` makes at most one update. -/
theorem Pmm.Exact.reservePage (h : p.Exact) (page : U32) :
    Relation.ReflTransGen Moves p (reservePage page p) := by
  unfold Mm.reservePage
  split_ifs with hfree
  · exact .single (h.reserve_moves ⟨hfree.1, by simpa using hfree.2⟩)
  · exact .refl

/-- The body of the loop over a usable region makes at most one update. -/
theorem Pmm.Exact.releasePage (h : p.Exact) (hpage : page < maxPages) :
    Relation.ReflTransGen Moves p (releasePage page p) := by
  unfold Mm.releasePage
  split_ifs with hreserved
  · exact .single (h.release_moves hpage hreserved)
  · exact .refl

/-- A loop over pages makes updates when its body does. -/
theorem forPages_moves {body : U32 → Pmm → Pmm} (hbody : ∀ page p, page < maxPages → p.Exact →
      Relation.ReflTransGen Moves p (body page p)) (last : U32) (turns : ℕ) (page : U32)
    (h : p.Exact) : Relation.ReflTransGen Moves p (forPages body last turns page p) := by
  induction turns generalizing page p with
  | zero => exact .refl
  | succ turns ih =>
    unfold forPages
    split_ifs with hlt
    · have hstep := hbody page p hlt.2 h
      exact hstep.trans (ih _ (exact_of_moves hstep h))
    · exact .refl

/-- Every entry of the memory map makes updates. -/
theorem Pmm.Exact.release (h : p.Exact) (e : MapEntry) :
    Relation.ReflTransGen Moves p (e.release p) := by
  unfold MapEntry.release
  split_ifs with htype
  · exact forPages_moves (fun _ _ hpage hexact => hexact.releasePage hpage) _ _ _ h
  · exact .refl

/-- The walk over the memory map makes updates. -/
theorem Pmm.Exact.foldl_release (h : p.Exact) (es : List MapEntry) :
    Relation.ReflTransGen Moves p (es.foldl (fun p e => e.release p) p) := by
  induction es generalizing p with
  | nil => exact .refl
  | cons e es ih =>
    have hstep := h.release e
    exact hstep.trans (ih (exact_of_moves hstep h))

/-- The initialisation starts with no clear bit and the count 0. -/
theorem exact_reserveAll (p : Pmm) : (reserveAll p).Exact := by
  have hnone : clearBits (reserveAll p).bitmap = ∅ :=
    Finset.eq_empty_of_forall_notMem fun k hk =>
      let ⟨_, hq, _⟩ := exists_free_of_mem_clearBits hk
      not_free_reserveAll hq
  unfold Pmm.Exact
  rw [hnone]
  rfl

/-- After its reset of the counter `pmm_init` makes updates only. -/
theorem pmmInit_moves {m : Memory} {kernelEnd multibootInfoAddr : U32} {turns : ℕ} {start : Pmm}
    (hinit : pmmInit m kernelEnd turns multibootInfoAddr start = some p) :
    Relation.ReflTransGen Moves (reserveAll start) p := by
  rw [pmmInit_eq] at hinit
  obtain ⟨es, -, rfl⟩ := Option.map_eq_some_iff.mp hinit
  have hexact := exact_reserveAll start
  have hwalk := hexact.foldl_release es
  exact hwalk.trans (forPages_moves (fun page _ _ h => h.reservePage page) _ _ _
    (exact_of_moves hwalk hexact))

/-- The loop of `pmm_alloc_page` makes at most one update. -/
theorem Pmm.Exact.allocPageFrom (h : p.Exact) (turns : ℕ) (i : U32) :
    Relation.ReflTransGen Moves p (allocPageFrom turns i p).2 := by
  induction turns generalizing i with
  | zero => exact .refl
  | succ turns ih =>
    unfold Mm.allocPageFrom
    split_ifs with hlt htest
    · exact ih _
    · exact .single (h.reserve_moves ⟨hlt, by simpa using htest⟩)
    · exact .refl

/-- `pmm_free_page` makes at most one update. -/
theorem Pmm.Exact.pmmFreePage (h : p.Exact) (addr : U32) :
    Relation.ReflTransGen Moves p (pmmFreePage addr p) := by
  unfold Mm.pmmFreePage
  dsimp only
  split_ifs with hreserved
  · exact .single (h.release_moves hreserved.1 hreserved.2)
  · exact .refl

/-- Allocations and frees make updates. -/
theorem PmmReachable.moves {start : Pmm} (h : PmmReachable start p) (hexact : start.Exact) :
    Relation.ReflTransGen Moves start p := by
  induction h with
  | init => exact .refl
  | alloc _ ih => exact ih.trans ((exact_of_moves ih hexact).allocPageFrom _ _)
  | free _ addr ih => exact ih.trans ((exact_of_moves ih hexact).pmmFreePage addr)

/-- After `pmm_init` and any allocations and frees `free_pages_count` is the number of clear bits,
and it got there from 0 by updates that never wrap. -/
theorem freePagesCount_exact {m : Memory} {kernelEnd multibootInfoAddr : U32} {turns : ℕ}
    {boot start : Pmm} (hinit : pmmInit m kernelEnd turns multibootInfoAddr boot = some start)
    (hrun : PmmReachable start p) :
    p.freePagesCount.toNat = (clearBits p.bitmap).card ∧
      Relation.ReflTransGen Moves (reserveAll boot) p := by
  have hboot := exact_reserveAll boot
  have hstart := pmmInit_moves hinit
  have hmoves := hstart.trans (hrun.moves (exact_of_moves hstart hboot))
  exact ⟨exact_of_moves hmoves hboot, hmoves⟩

/-- The counter after the boot with one region, two allocations and frees of an address that is
not aligned and of one behind the managed memory. -/
theorem oneRegion_freePagesCount : ∃ start p,
    pmmInit oneRegion 0x180000#32 2 0x1000#32 ⟨fun _ => 0#8, 0#32⟩ = some start ∧
      p = pmmFreePage 0xFFFFFFFF#32 (pmmFreePage 0x181234#32
        (pmmAllocPage (pmmAllocPage start).2).2) ∧
      p.freePagesCount.toNat = (clearBits p.bitmap).card := by
  obtain ⟨start, hinit, -⟩ := pmmInit_oneRegion
  exact ⟨start, _, hinit, rfl,
    (freePagesCount_exact hinit (.free (.free (.alloc (.alloc .init)) _) _)).1⟩

end

end AlderKernel.Mm
