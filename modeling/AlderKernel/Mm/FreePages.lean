import AlderKernel.Mm.Pmm

/-!
# The set of free pages

What the operations of the page allocator do to the set of free pages: an
allocation takes the lowest free page, freeing a page puts it back. After `pmm_init`
no page of the kernel image is free, in particular not the page at address 0.
-/

namespace AlderKernel.Mm

open Machine

section

variable {bitmap : U32 → U8} {page q : U32}

/-- The bit of a page inside its byte. -/
theorem bitIndex_lt (page : U32) : (page % 8#32).toNat < 8 := by
  rw [BitVec.toNat_umod]
  exact Nat.mod_lt _ (by decide)

/-- `1 << (page % 8)` has one bit. -/
theorem pageBit_eq (page : U32) : pageBit page = BitVec.twoPow 32 (page % 8#32).toNat := by
  rw [pageBit, BitVec.shiftLeft_eq', BitVec.twoPow_eq]

/-- A page is tested through its bit. -/
theorem bitmapTest_eq (bitmap : U32 → U8) (page : U32) :
    bitmapTest bitmap page = (bitmap (page / 8#32)).getLsbD (page % 8#32).toNat := by
  have hlt := bitIndex_lt page
  rw [bitmapTest, pageBit_eq, BitVec.and_twoPow, BitVec.getLsbD_setWidth]
  generalize (page % 8#32).toNat = bit at hlt
  have hnonzero : BitVec.twoPow 32 bit ≠ 0#32 := by
    intro hzero
    have hbit := congrArg (fun bits => bits.getLsbD bit) hzero
    simp only [BitVec.getLsbD_twoPow, BitVec.getLsbD_zero] at hbit
    simp at hbit
    omega
  have hwide : bit < 32 := by omega
  cases hbit : (bitmap (page / 8#32)).getLsbD bit with
  | true => simp [hnonzero, hwide]
  | false => simp

/-- Pages that share byte and bit are the same. -/
theorem eq_page_iff : q = page ↔
    q / 8#32 = page / 8#32 ∧ (q % 8#32).toNat = (page % 8#32).toNat := by
  constructor
  · rintro rfl
    exact ⟨rfl, rfl⟩
  · rintro ⟨hbyte, hbit⟩
    have hbyte := congrArg BitVec.toNat hbyte
    rw [BitVec.toNat_udiv, BitVec.toNat_udiv] at hbyte
    rw [BitVec.toNat_umod, BitVec.toNat_umod] at hbit
    have h8 : (8#32).toNat = 8 := rfl
    rw [h8] at hbyte hbit
    exact BitVec.eq_of_toNat_eq (by omega)

/-- Setting a page's bit reserves that page and no other. -/
theorem bitmapTest_bitmapSet :
    bitmapTest (bitmapSet bitmap page) q = true ↔ q = page ∨ bitmapTest bitmap q = true := by
  have hlt := bitIndex_lt q
  rw [bitmapTest_eq, bitmapTest_eq, eq_page_iff, bitmapSet]
  by_cases hbyte : q / 8#32 = page / 8#32
  · rw [if_pos hbyte, pageBit_eq, hbyte, BitVec.getLsbD_or, BitVec.getLsbD_setWidth,
      BitVec.getLsbD_twoPow]
    generalize (page % 8#32).toNat = bit
    generalize (q % 8#32).toNat = qbit at *
    simp only [Bool.or_eq_true, Bool.and_eq_true, decide_eq_true_eq]
    constructor
    · rintro (hset | ⟨-, -, rfl⟩)
      · exact .inr hset
      · exact .inl ⟨trivial, rfl⟩
    · rintro (⟨-, rfl⟩ | hset)
      · exact .inr ⟨hlt, by omega, rfl⟩
      · exact .inl hset
  · rw [if_neg hbyte]
    simp [hbyte]

/-- Clearing a page's bit frees that page and no other. -/
theorem bitmapTest_bitmapClear :
    bitmapTest (bitmapClear bitmap page) q = true ↔ q ≠ page ∧ bitmapTest bitmap q = true := by
  have hlt := bitIndex_lt q
  rw [bitmapTest_eq, bitmapTest_eq, Ne, eq_page_iff, bitmapClear]
  by_cases hbyte : q / 8#32 = page / 8#32
  · rw [if_pos hbyte, pageBit_eq, hbyte, BitVec.getLsbD_and, BitVec.getLsbD_setWidth,
      BitVec.getLsbD_not, BitVec.getLsbD_twoPow]
    generalize (page % 8#32).toNat = bit
    generalize (q % 8#32).toNat = qbit at *
    have hwide : qbit < 32 := by omega
    by_cases hbit : qbit = bit
    · simp [hbit, hbit ▸ hwide]
    · simp [hbit, hlt, hwide, Ne.symm hbit]
  · rw [if_neg hbyte]
    simp [hbyte]

end

section

variable {p : Pmm} {page q : U32}

/-- Reserved pages are not free. -/
theorem free_bitmapSet (count : U32) :
    (⟨bitmapSet p.bitmap page, count⟩ : Pmm).Free q ↔ p.Free q ∧ q ≠ page := by
  unfold Pmm.Free
  rw [← Bool.not_eq_true, ← Bool.not_eq_true, bitmapTest_bitmapSet]
  tauto

/-- Released pages are free. -/
theorem free_bitmapClear (count : U32) (hpage : page < maxPages) :
    (⟨bitmapClear p.bitmap page, count⟩ : Pmm).Free q ↔ p.Free q ∨ q = page := by
  unfold Pmm.Free
  rw [← Bool.not_eq_true, ← Bool.not_eq_true, bitmapTest_bitmapClear]
  constructor
  · tauto
  · rintro (hfree | rfl)
    · tauto
    · tauto

/-- `reserve_page` takes one page out of the free ones. -/
theorem free_reservePage : (reservePage page p).Free q ↔ p.Free q ∧ q ≠ page := by
  unfold reservePage
  split_ifs with hfree
  · exact free_bitmapSet _
  · refine ⟨fun hq => ⟨hq, ?_⟩, And.left⟩
    rintro rfl
    exact hfree ⟨hq.1, by simp [hq.2]⟩

/-- The body of the loop over a region frees one page. -/
theorem free_releasePage (hpage : page < maxPages) :
    (releasePage page p).Free q ↔ p.Free q ∨ q = page := by
  unfold releasePage
  split_ifs with hreserved
  · exact free_bitmapClear _ hpage
  · refine ⟨.inl, ?_⟩
    rintro (hq | rfl)
    · exact hq
    · exact ⟨hpage, by simpa using hreserved⟩

/-- The loop over `reserve_page` takes the pages up to `last` out of the free ones. -/
theorem free_forPages_reservePage {last : U32} {turns : ℕ}
    (hturns : maxPages.toNat ≤ page.toNat + turns) :
    (forPages reservePage last turns page p).Free q ↔ p.Free q ∧ ¬ (page ≤ q ∧ q < last) := by
  have hmax : maxPages.toNat = 32768 := rfl
  induction turns generalizing page p with
  | zero => exact (and_iff_left_of_imp fun hq => by have := hq.1; bv_omega).symm
  | succ turns ih =>
    unfold forPages
    split_ifs with hlt
    · have hnext : maxPages.toNat ≤ (page + 1#32).toNat + turns := by bv_omega
      refine (ih hnext).trans ?_
      rw [free_reservePage, and_assoc]
      refine and_congr_right fun _ => ?_
      bv_omega
    · exact (and_iff_left_of_imp fun hq => by have := hq.1; bv_omega).symm

/-- The loop over a usable region frees its pages. -/
theorem free_forPages_releasePage {last : U32} {turns : ℕ}
    (hturns : maxPages.toNat ≤ page.toNat + turns) :
    (forPages releasePage last turns page p).Free q ↔
      p.Free q ∨ page ≤ q ∧ q < last ∧ q < maxPages := by
  have hmax : maxPages.toNat = 32768 := rfl
  induction turns generalizing page p with
  | zero => exact (or_iff_left (by bv_omega)).symm
  | succ turns ih =>
    unfold forPages
    split_ifs with hlt
    · have hnext : maxPages.toNat ≤ (page + 1#32).toNat + turns := by bv_omega
      refine (ih hnext).trans ?_
      rw [free_releasePage hlt.2, or_assoc]
      refine or_congr_right ?_
      bv_omega
    · exact (or_iff_left (by bv_omega)).symm

/-- The result of a successful `pmm_alloc_page`: the lowest free page is handed out. -/
structure TakesLowest (p : Pmm) (page : U32) (r : U32 × Pmm) : Prop where
  free : p.Free page
  lowest : ∀ q, p.Free q → page ≤ q
  address : r.1 = page <<< 12
  rest : ∀ q, r.2.Free q ↔ p.Free q ∧ q ≠ page

/-- The loop of `pmm_alloc_page`, where no page below the start of the loop is free. -/
theorem allocPageFrom_spec {turns : ℕ} {i : U32} (hturns : maxPages.toNat ≤ i.toNat + turns)
    (hbelow : ∀ q, p.Free q → i ≤ q) :
    (∃ page, TakesLowest p page (allocPageFrom turns i p)) ∨
      (∀ q, ¬ p.Free q) ∧ allocPageFrom turns i p = (0#32, p) := by
  have hmax : maxPages.toNat = 32768 := rfl
  have hnone (hi : maxPages ≤ i) (q : U32) : ¬ p.Free q := fun hq => by
    have hlt := hq.1
    have hle := hbelow q hq
    bv_omega
  induction turns generalizing i with
  | zero => exact .inr ⟨hnone (by bv_omega), rfl⟩
  | succ turns ih =>
    unfold allocPageFrom
    split_ifs with hlt htest
    · have hnext : ∀ q, p.Free q → i + 1#32 ≤ q := by
        intro q hq
        have hle := hbelow q hq
        have hne : q ≠ i := by
          rintro rfl
          exact absurd htest (by simp [hq.2])
        bv_omega
      refine ih (by bv_omega) hnext fun hi q hq => ?_
      have hle := hnext q hq
      have hlt := hq.1
      bv_omega
    · have hfree : p.Free i := ⟨hlt, by simpa using htest⟩
      refine .inl ⟨i, hfree, hbelow, rfl, fun q => ?_⟩
      exact free_bitmapSet _
    · exact .inr ⟨hnone (by bv_omega), rfl⟩

/-- `pmm_alloc_page` hands out the lowest free page, if there is one. -/
theorem pmmAllocPage_spec (p : Pmm) :
    (∃ page, TakesLowest p page (pmmAllocPage p)) ∨
      (∀ q, ¬ p.Free q) ∧ pmmAllocPage p = (0#32, p) :=
  allocPageFrom_spec (by simp) fun q _ => (BitVec.le_def.mpr (Nat.zero_le _))

/-- `pmm_free_page` puts the page of an address back. -/
theorem free_pmmFreePage {addr : U32} (hpage : addr >>> 12 < maxPages) :
    (pmmFreePage addr p).Free q ↔ p.Free q ∨ q = addr >>> 12 := by
  unfold pmmFreePage
  dsimp only
  split_ifs with hreserved
  · exact free_bitmapClear _ hpage
  · refine ⟨.inl, ?_⟩
    rintro (hq | rfl)
    · exact hq
    · exact ⟨hpage, by simpa [hpage] using hreserved⟩

end

/-- The address of a page, without wrapping. -/
theorem toNat_pageAddr {page : U32} (h : page ≤ maxPages) :
    (page <<< 12).toNat = page.toNat * 4096 := by
  have hmax : maxPages.toNat = 32768 := rfl
  rw [BitVec.toNat_shiftLeft, Nat.shiftLeft_eq]
  bv_omega

/-- The page of an address. -/
theorem pageAddr_page {page : U32} (h : page ≤ maxPages) : page <<< 12 >>> 12 = page := by
  refine BitVec.eq_of_toNat_eq ?_
  rw [BitVec.toNat_ushiftRight, toNat_pageAddr h, Nat.shiftRight_eq_div_pow]
  omega

/-- After `pmm_init` no page of the kernel image, and no page below it, is free. -/
theorem pmmInit_free {m : Memory} {kernelEnd multibootInfoAddr page : U32} {turns : ℕ}
    {start p : Pmm} (hinit : pmmInit m kernelEnd turns multibootInfoAddr start = some p)
    (hfree : p.Free page) : kernelEnd >>> 12 < page := by
  obtain ⟨walked, -, rfl⟩ := Option.map_eq_some_iff.mp hinit
  have hout := ((free_forPages_reservePage (by simp)).mp hfree).2
  have hshift : (kernelEnd >>> 12).toNat < 2 ^ 20 := by
    rw [BitVec.toNat_ushiftRight, Nat.shiftRight_eq_div_pow]
    omega
  bv_omega

end AlderKernel.Mm
