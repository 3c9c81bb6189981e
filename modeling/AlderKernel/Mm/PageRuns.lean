import AlderKernel.Mm.PageCount

/-!
# The page allocator over whole runs

A client that frees only what it was given never gets a page twice, nor a page of the
kernel image. The value 0, which is also the address of page 0, always means that no
page is free.
-/

namespace AlderKernel.Mm

open Machine

/-- The states that the page allocator reaches from `start`, with the addresses that are
outstanding in them: handed out and not freed since. -/
inductive PageRun (start : Pmm) : Pmm → List U32 → Prop
  | init : PageRun start start []
  | alloc {p : Pmm} {outstanding : List U32} (h : PageRun start p outstanding) :
      PageRun start (pmmAllocPage p).2
        (if (pmmAllocPage p).1 = 0#32 then outstanding else (pmmAllocPage p).1 :: outstanding)
  | free {p : Pmm} {outstanding : List U32} (h : PageRun start p outstanding) {addr : U32}
      (haddr : addr ∈ outstanding) : PageRun start (pmmFreePage addr p) (outstanding.erase addr)

/-- What a client may rely on for an address that it is given. -/
structure FreshPage (kernelEnd : U32) (p : Pmm) (outstanding : List U32) (addr : U32) : Prop where
  free : p.Free (addr >>> 12)
  lowest : ∀ q, p.Free q → addr >>> 12 ≤ q
  aligned : addr.toNat % 4096 = 0
  managed : addr.toNat < 128 * 1024 * 1024
  aboveKernel : (kernelEnd.toNat / 4096 + 1) * 4096 ≤ addr.toNat
  fresh : addr ∉ outstanding

/-- Outstanding addresses are those of different reserved pages above the kernel image. -/
structure Keeps (kernelEnd : U32) (p : Pmm) (outstanding : List U32) : Prop where
  aboveKernel : ∀ q, p.Free q → kernelEnd.toNat / 4096 < q.toNat
  reserved : ∀ addr ∈ outstanding, ∃ page : U32, addr = page <<< 12 ∧ page < maxPages ∧
    kernelEnd.toNat / 4096 < page.toNat ∧ ¬ p.Free page
  nodup : outstanding.Nodup

section

variable {kernelEnd page addr : U32} {start p p' : Pmm} {outstanding : List U32}

/-- Managed pages with the same address are the same. -/
theorem page_eq_of_addr_eq {q : U32} (hpage : page < maxPages) (hq : q < maxPages)
    (h : page <<< 12 = q <<< 12) : page = q := by
  rw [← pageAddr_page (BitVec.le_of_lt hpage), h, pageAddr_page (BitVec.le_of_lt hq)]

/-- A page that `pmm_alloc_page` takes is fresh. -/
theorem Keeps.fresh (h : Keeps kernelEnd p outstanding) {r : U32 × Pmm}
    (htake : TakesLowest p page r) : FreshPage kernelEnd p outstanding (page <<< 12) := by
  have hlt := htake.free.1
  have hle : page ≤ maxPages := BitVec.le_of_lt hlt
  have hmax : maxPages.toNat = 32768 := rfl
  have haddr := toNat_pageAddr hle
  have hkernel := h.aboveKernel page htake.free
  refine ⟨?_, fun q hq => ?_, by omega, by bv_omega, by omega, fun hmem => ?_⟩
  · rw [pageAddr_page hle]
    exact htake.free
  · rw [pageAddr_page hle]
    exact htake.lowest q hq
  · obtain ⟨q, heq, hq, -, hreserved⟩ := h.reserved _ hmem
    exact hreserved (page_eq_of_addr_eq hlt hq heq ▸ htake.free)

/-- The page above the kernel image has an address that is not 0. -/
theorem FreshPage.ne_zero (h : FreshPage kernelEnd p outstanding addr) : addr ≠ 0#32 := by
  have habove := h.aboveKernel
  rintro rfl
  simp at habove

/-- `pmm_alloc_page` keeps what is outstanding, with the page that it hands out. -/
theorem Keeps.alloc (h : Keeps kernelEnd p outstanding) :
    Keeps kernelEnd (pmmAllocPage p).2
      (if (pmmAllocPage p).1 = 0#32 then outstanding else (pmmAllocPage p).1 :: outstanding) := by
  rcases pmmAllocPage_spec p with ⟨page, htake⟩ | ⟨hnone, hrun⟩
  · have hfresh := h.fresh htake
    rw [htake.address, if_neg hfresh.ne_zero]
    refine ⟨fun q hq => h.aboveKernel q ((htake.rest q).mp hq).1, fun addr haddr => ?_,
      List.nodup_cons.mpr ⟨hfresh.fresh, h.nodup⟩⟩
    rcases List.mem_cons.mp haddr with rfl | hmem
    · exact ⟨page, rfl, htake.free.1, h.aboveKernel page htake.free,
        fun hfree => ((htake.rest page).mp hfree).2 rfl⟩
    · obtain ⟨q, heq, hlt, hkernel, hreserved⟩ := h.reserved addr hmem
      exact ⟨q, heq, hlt, hkernel, fun hfree => hreserved ((htake.rest q).mp hfree).1⟩
  · rw [hrun, if_pos rfl]
    exact h

/-- `pmm_free_page` of an outstanding address keeps the other ones. -/
theorem Keeps.free (h : Keeps kernelEnd p outstanding) (haddr : addr ∈ outstanding) :
    Keeps kernelEnd (pmmFreePage addr p) (outstanding.erase addr) := by
  obtain ⟨page, rfl, hlt, hkernel, -⟩ := h.reserved addr haddr
  have hpage : page <<< 12 >>> 12 = page := pageAddr_page (BitVec.le_of_lt hlt)
  have hfree (q : U32) : (pmmFreePage (page <<< 12) p).Free q ↔ p.Free q ∨ q = page := by
    rw [free_pmmFreePage (by rwa [hpage]), hpage]
  refine ⟨fun q hq => ?_, fun addr hmem => ?_, h.nodup.erase _⟩
  · rcases (hfree q).mp hq with hq | rfl
    · exact h.aboveKernel q hq
    · exact hkernel
  · obtain ⟨hne, hmem⟩ := (h.nodup.mem_erase_iff).mp hmem
    obtain ⟨q, rfl, hq, hqkernel, hreserved⟩ := h.reserved addr hmem
    refine ⟨q, rfl, hq, hqkernel, fun hq' => ?_⟩
    rcases (hfree q).mp hq' with hq' | rfl
    · exact hreserved hq'
    · exact hne rfl

/-- In every state of a run the outstanding addresses are kept. -/
theorem PageRun.keeps (h : PageRun start p outstanding)
    (hkernel : ∀ q, start.Free q → kernelEnd.toNat / 4096 < q.toNat) :
    Keeps kernelEnd p outstanding := by
  induction h with
  | init => exact ⟨hkernel, by simp, List.nodup_nil⟩
  | alloc _ ih => exact ih.alloc
  | free _ haddr ih => exact ih.free haddr

/-- Runs consist of allocations and frees. -/
theorem PageRun.reachable (h : PageRun start p outstanding) : PmmReachable start p := by
  induction h with
  | init => exact .init
  | alloc _ ih => exact ih.alloc
  | free _ haddr ih => exact ih.free _

/-- After `pmm_init` only pages above the kernel image are free. -/
theorem free_above_kernel {m : Memory} {multibootInfoAddr : U32} {turns : ℕ} {boot : Pmm}
    (hinit : pmmInit m kernelEnd turns multibootInfoAddr boot = some start) (q : U32)
    (hq : start.Free q) : kernelEnd.toNat / 4096 < q.toNat := by
  have hlt := pmmInit_free hinit hq
  rwa [BitVec.lt_def, BitVec.toNat_ushiftRight, Nat.shiftRight_eq_div_pow] at hlt

/-- In every run after `pmm_init` in which only outstanding addresses are freed, an allocation
returns 0 exactly when `free_pages_count` is 0, and the lowest free page, a fresh one, otherwise. -/
theorem pmmAllocPage_safe {m : Memory} {multibootInfoAddr : U32} {turns : ℕ} {boot : Pmm}
    (hinit : pmmInit m kernelEnd turns multibootInfoAddr boot = some start)
    (hrun : PageRun start p outstanding) :
    ((pmmAllocPage p).1 = 0#32 ↔ p.freePagesCount = 0#32) ∧
      ((pmmAllocPage p).1 ≠ 0#32 → FreshPage kernelEnd p outstanding (pmmAllocPage p).1) := by
  have hkeeps := hrun.keeps (free_above_kernel hinit)
  have hboot := exact_reserveAll boot
  have hstart := exact_of_moves (pmmInit_moves hinit) hboot
  have hexact := exact_of_moves (hrun.reachable.moves hstart) hstart
  rw [hexact.count_eq_zero_iff]
  rcases pmmAllocPage_spec p with ⟨page, htake⟩ | ⟨hnone, halloc⟩
  · have hfresh := hkeeps.fresh htake
    rw [htake.address]
    refine ⟨⟨fun hzero => absurd hzero hfresh.ne_zero, fun hnone => ?_⟩, fun _ => hfresh⟩
    exact absurd htake.free (hnone page)
  · rw [halloc]
    exact ⟨⟨fun _ => hnone, fun _ => rfl⟩, fun hne => absurd rfl hne⟩

/-- After the boot with one region, an allocation, its free and another allocation. -/
theorem oneRegion_pmmAllocPage : ∃ start p outstanding,
    pmmInit oneRegion 0x180000#32 2 0x1000#32 ⟨fun _ => 0#8, 0#32⟩ = some start ∧
      PageRun start p outstanding ∧ (pmmAllocPage start).1 ≠ 0#32 ∧ outstanding = [] ∧
      ((pmmAllocPage p).1 ≠ 0#32 → FreshPage 0x180000#32 p outstanding (pmmAllocPage p).1) := by
  obtain ⟨start, hinit, hfree⟩ := pmmInit_oneRegion
  have hrun : PageRun start start [] := .init
  have hne : (pmmAllocPage start).1 ≠ 0#32 := by
    rcases pmmAllocPage_spec start with ⟨page, htake⟩ | ⟨hnone, -⟩
    · have hkeeps := hrun.keeps (free_above_kernel hinit)
      rw [htake.address]
      exact (hkeeps.fresh htake).ne_zero
    · exact absurd hfree (hnone _)
  have halloc : PageRun start (pmmAllocPage start).2 [(pmmAllocPage start).1] := by
    simpa [hne] using hrun.alloc
  have hfreed := halloc.free (List.mem_singleton_self _)
  exact ⟨start, _, _, hinit, hfreed, hne, by simp, (pmmAllocPage_safe hinit hfreed).2⟩

end

end AlderKernel.Mm
