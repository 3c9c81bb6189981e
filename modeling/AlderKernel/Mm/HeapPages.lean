import AlderKernel.Mm.FreePages
import AlderKernel.Mm.Heap

/-!
# The pages of a heap extension

The loop of `heap_extend` obtains a run of consecutive pages. Because the page allocator
hands out the lowest free page, the run starts at the lowest free page and ends where the
next page is not free, or when enough pages have been obtained.
-/

namespace AlderKernel.Mm

open Machine

/-- What the loop obtains, when `n` pages from `first` on have been obtained before: all
pages up to the `n'`-th. The next page is not free, unless all `turns` turns obtained a page. -/
structure ExtendsTo (p : Pmm) (first : U32) (n turns n' : ℕ) (p' : Pmm) : Prop where
  le : n ≤ n'
  le_turns : n' ≤ n + turns
  free : ∀ q, first.toNat + n ≤ q.toNat → q.toNat < first.toNat + n' → p.Free q
  rest : ∀ q, p'.Free q ↔ p.Free q ∧ ¬ (first.toNat + n ≤ q.toNat ∧ q.toNat < first.toNat + n')
  stops : n' < n + turns → ∀ q, q.toNat = first.toNat + n' → ¬ p.Free q

section

variable {p p' : Pmm} {first page got : U32} {n n' turns : ℕ}

/-- The loop ends without a further page. -/
theorem ExtendsTo.stop (hnot : ∀ q, q.toNat = first.toNat + n → ¬ p.Free q)
    (hrest : ∀ q, p'.Free q ↔ p.Free q) : ExtendsTo p first n turns n p' :=
  ⟨le_rfl, by omega, fun q _ _ => by omega,
    fun q => (hrest q).trans (and_iff_left (by omega)).symm, fun _ => hnot⟩

/-- One more page in front of a run. -/
theorem ExtendsTo.cons (hpage : TakesLowest p page (pmmAllocPage p))
    (heq : page.toNat = first.toNat + n)
    (h : ExtendsTo (pmmAllocPage p).2 first (n + 1) turns n' p') :
    ExtendsTo p first n (turns + 1) n' p' := by
  have hne (q : U32) : q ≠ page ↔ q.toNat ≠ first.toNat + n := by
    rw [← heq, Ne, Ne, BitVec.toNat_inj]
  obtain ⟨hle, hturns, hfree, hrest, hstops⟩ := h
  refine ⟨by omega, by omega, fun q hq hq' => ?_, fun q => ?_, fun h q hq hfreeq => ?_⟩
  · by_cases hqp : q = page
    · rw [hqp]
      exact hpage.free
    · have hqn := (hne q).mp hqp
      exact ((hpage.rest q).mp (hfree q (by omega) hq')).1
  · rw [hrest q, hpage.rest q, hne q, and_assoc]
    refine and_congr_right fun _ => ?_
    omega
  · have hqp : q ≠ page := (hne q).mpr (by omega)
    exact hstops (by omega) q hq ((hpage.rest q).mpr ⟨hfreeq, hqp⟩)

/-- Freeing a page right after it was allocated changes no free page. -/
theorem TakesLowest.free_again (hpage : TakesLowest p page (pmmAllocPage p)) (q : U32) :
    (pmmFreePage (page <<< 12) (pmmAllocPage p).2).Free q ↔ p.Free q := by
  have hlt : page < maxPages := hpage.free.1
  have hback : page <<< 12 >>> 12 = page := pageAddr_page (BitVec.le_of_lt hlt)
  rw [free_pmmFreePage (by rw [hback]; exact hlt), hback, hpage.rest q]
  constructor
  · rintro (⟨hq, -⟩ | rfl)
    · exact hq
    · exact hpage.free
  · intro hq
    by_cases heq : q = page
    · exact .inr heq
    · exact .inl ⟨hq, heq⟩

/-- The page loop of `heap_extend`. -/
theorem extendPages_spec (turns : ℕ) (first got : U32) (hpos : ∀ q, p.Free q → q ≠ 0#32)
    (habove : ∀ q, p.Free q → first.toNat + got.toNat ≤ q.toNat)
    (hmax : first.toNat + got.toNat ≤ 32768) :
    ∃ got' p', extendPages turns got ((first + got) <<< 12) p = (got', p') ∧
      ExtendsTo p first got.toNat turns got'.toNat p' := by
  induction turns generalizing got p with
  | zero =>
    exact ⟨got, p, rfl, le_rfl, le_rfl, fun q _ _ => by omega,
      fun q => (and_iff_left (by omega)).symm, fun _ => by omega⟩
  | succ turns ih =>
    have hmaxPages : maxPages.toNat = 32768 := rfl
    unfold extendPages
    dsimp only
    rcases pmmAllocPage_spec p with ⟨page, hpage⟩ | ⟨hnone, hresult⟩
    · have hlt : page.toNat < 32768 := hpage.free.1
      have hzero := hpos page hpage.free
      have hle := habove page hpage.free
      have haddr : (page <<< 12).toNat = page.toNat * 4096 := toNat_pageAddr (by bv_omega)
      have hsum : (first + got).toNat = first.toNat + got.toNat := by bv_omega
      have hexpected : ((first + got) <<< 12).toNat = (first.toNat + got.toNat) * 4096 := by
        rw [toNat_pageAddr (by bv_omega), hsum]
      rw [hpage.address, if_neg (by bv_omega)]
      by_cases hnext : page <<< 12 = (first + got) <<< 12
      · rw [if_neg (not_not.mpr hnext)]
        have heq : page.toNat = first.toNat + got.toNat := by
          rw [hnext] at haddr
          omega
        have hgot : (got + 1#32).toNat = got.toNat + 1 := by bv_omega
        have hstep : (first + got) <<< 12 + pageSize = (first + (got + 1#32)) <<< 12 := by
          have hsum' : (first + (got + 1#32)).toNat = first.toNat + got.toNat + 1 := by bv_omega
          have hsize : pageSize.toNat = 4096 := rfl
          refine BitVec.eq_of_toNat_eq ?_
          rw [toNat_pageAddr (by bv_omega), hsum', BitVec.toNat_add, hexpected, hsize]
          omega
        have habove' (q : U32) (hq : (pmmAllocPage p).2.Free q) :
            first.toNat + (got + 1#32).toNat ≤ q.toNat := by
          obtain ⟨hfree, hne⟩ := (hpage.rest q).mp hq
          have hle := hpage.lowest q hfree
          bv_omega
        obtain ⟨got', p', hrun, hext⟩ :=
          ih (got + 1#32) (fun q hq => hpos q ((hpage.rest q).mp hq).1) habove'
          (by rw [hgot]; omega)
        rw [hgot] at hext
        rw [hstep, hrun]
        exact ⟨got', p', rfl, .cons hpage heq hext⟩
      · rw [if_pos hnext]
        refine ⟨got, _, rfl, .stop (fun q hq hfree => hnext ?_) hpage.free_again⟩
        have hlow := hpage.lowest q hfree
        rw [show page = first + got by bv_omega]
    · rw [hresult, if_pos rfl]
      exact ⟨got, p, rfl, .stop (fun q _ => hnone q) fun _ => Iff.rfl⟩

/-- What `heap_extend` obtains, from its first page on: `n` pages from the lowest free one. -/
structure ObtainsPages (p : Pmm) (pages : U32) (first : U32) (n : ℕ) (p' : Pmm) : Prop where
  lowest : ∀ q, p.Free q → first ≤ q
  pos : 0 < n
  run : ExtendsTo p first 0 pages.toNat n p'

/-- Obtained pages are managed pages. -/
theorem ObtainsPages.bound {pages : U32} (h : ObtainsPages p pages first n p') :
    first.toNat + n ≤ 32768 := by
  by_contra hlt
  have hfirst : p.Free first := h.run.free first le_rfl (Nat.lt_add_of_pos_right h.pos)
  have hmax : first.toNat < 32768 := hfirst.1
  have hq : p.Free 32768#32 := h.run.free _ (by bv_omega) (by bv_omega)
  exact absurd hq.1 (by decide)

/-- Where the run starts and how long it is depends on the free pages only. -/
theorem ObtainsPages.unique {pages first first' : U32} {p'' : Pmm}
    (h : ObtainsPages p pages first n p') (h' : ObtainsPages p pages first' n' p'') :
    first = first' ∧ n = n' := by
  have hfree : p.Free first := h.run.free first le_rfl (Nat.lt_add_of_pos_right h.pos)
  have hfree' : p.Free first' := h'.run.free first' le_rfl (Nat.lt_add_of_pos_right h'.pos)
  obtain rfl : first = first' :=
    BitVec.le_antisymm (h.lowest _ hfree') (h'.lowest _ hfree)
  -- The shorter run stopped at a page that the longer one obtained.
  have hle {k k' : ℕ} {q q' : Pmm} (hk : ObtainsPages p pages first k q)
      (hk' : ObtainsPages p pages first k' q') : k' ≤ k := by
    by_contra hlt
    have hmax := hk'.bound
    have hturns := hk'.run.le_turns
    have hpage : (BitVec.ofNat 32 (first.toNat + k)).toNat = first.toNat + k := by
      rw [BitVec.toNat_ofNat]
      omega
    exact hk.run.stops (by omega) _ hpage (hk'.run.free _ (by omega) (by omega))
  exact ⟨rfl, Nat.le_antisymm (hle h' h) (hle h h')⟩

/-- The pages of `heap_extend`. -/
theorem heapExtend_pages {pages : U32} (hpos : ∀ q, p.Free q → q ≠ 0#32) (hpages : 0 < pages.toNat)
    (hpage : TakesLowest p first (pmmAllocPage p)) :
    ∃ got p', extendPages (pages.toNat - 1) 1#32 ((pmmAllocPage p).1 + pageSize)
        (pmmAllocPage p).2 = (got, p') ∧ ObtainsPages p pages first got.toNat p' := by
  have hmaxPages : maxPages.toNat = 32768 := rfl
  have hlt : first.toNat < 32768 := hpage.free.1
  have hstart : (pmmAllocPage p).1 + pageSize = (first + 1#32) <<< 12 := by
    have hsum : (first + 1#32).toNat = first.toNat + 1 := by bv_omega
    have hsize : pageSize.toNat = 4096 := rfl
    rw [hpage.address]
    refine BitVec.eq_of_toNat_eq ?_
    rw [toNat_pageAddr (by bv_omega), hsum, BitVec.toNat_add, toNat_pageAddr (by bv_omega), hsize]
    omega
  have habove (q : U32) (hq : (pmmAllocPage p).2.Free q) :
      first.toNat + (1#32).toNat ≤ q.toNat := by
    obtain ⟨hfree, hne⟩ := (hpage.rest q).mp hq
    have hle := hpage.lowest q hfree
    bv_omega
  obtain ⟨got, p', hrun, hext⟩ := extendPages_spec (pages.toNat - 1) first 1#32
    (fun q hq => hpos q ((hpage.rest q).mp hq).1) habove (by bv_omega)
  have hall := ExtendsTo.cons (n := 0) hpage rfl hext
  rw [show pages.toNat - 1 + 1 = pages.toNat by omega] at hall
  rw [hstart]
  exact ⟨got, p', hrun, hpage.lowest, Nat.lt_of_lt_of_le Nat.zero_lt_one hext.le, hall⟩

end

end AlderKernel.Mm
