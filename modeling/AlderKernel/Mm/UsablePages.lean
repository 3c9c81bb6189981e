import AlderKernel.Mm.MemoryMap

/-!
# Free pages and usable memory

Which memory maps make `pmm_init` free only pages that are usable as a whole. The
loop over a usable entry starts at the page of its base, rounded down, with a page number
cut off at 32 bits, and does not look at the other entries.
-/

namespace AlderKernel.Mm

open Machine

/-- Some entry of the map reports the byte as usable. -/
def IsUsable (es : List MapEntry) (x : ℕ) : Prop := ∃ e ∈ es, e.Usable ∧ e.Contains x

/-- Some entry of the map reports the byte as something else. -/
def IsReserved (es : List MapEntry) (x : ℕ) : Prop := ∃ e ∈ es, ¬ e.Usable ∧ e.Contains x

/-- The bytes of an entry. -/
def MapEntry.bytes (e : MapEntry) : Set ℕ :=
  Set.Ico e.baseAddr.toNat (e.baseAddr.toNat + e.length.toNat)

/-- The bytes of the pages of an entry, from the page of its base on, above the page of
`_kernel_end`. -/
def MapEntry.pageBytes (e : MapEntry) (kernelPage : ℕ) : Set ℕ :=
  Set.Ico (max (kernelPage + 1) e.firstPage * 4096) (e.lastPage * 4096)

/-- The maps whose usable entries come as whole pages, above the page of `_kernel_end`. -/
structure WholePages (es : List MapEntry) (kernelPage : ℕ) : Prop where
  /-- Where a usable entry begins inside its first page, other usable entries hold the part of the
  page in front of it. -/
  aligned : ∀ e ∈ es, e.Usable → e.baseAddr.toNat < 2 ^ 44 →
    kernelPage < e.baseAddr.toNat / 4096 → e.baseAddr.toNat / 4096 < e.lastPage →
    ∀ x, e.baseAddr.toNat / 4096 * 4096 ≤ x → x < e.baseAddr.toNat → IsUsable es x
  /-- A usable entry whose page number does not fit 32 bits does not pass for one in managed memory,
  or what it passes for is usable. -/
  lowBase : ∀ e ∈ es, e.Usable → 2 ^ 44 ≤ e.baseAddr.toNat → ∀ x, kernelPage < x / 4096 →
    e.baseAddr.toNat / 4096 % 2 ^ 32 ≤ x / 4096 → x < 128 * 1024 * 1024 → IsUsable es x
  /-- No other entry reaches into the pages of a usable one. -/
  apart : ∀ e ∈ es, e.Usable → ∀ e' ∈ es, ¬ e'.Usable →
    Disjoint (e.pageBytes kernelPage) e'.bytes

section

variable {e : MapEntry} {es : List MapEntry} {kernelPage x : ℕ}

/-- The bytes of a released page lie in front of the end of the entry. -/
theorem MapEntry.Releases.lt_end (h : e.Releases (x / 4096)) :
    x < e.baseAddr.toNat + e.length.toNat ∧ x < 128 * 1024 * 1024 := by
  obtain ⟨-, -, hlast⟩ := h
  unfold MapEntry.lastPage at hlast
  omega

/-- The pages of a usable entry are those that it releases. -/
theorem MapEntry.mem_pageBytes (he : e.Usable) :
    x ∈ e.pageBytes kernelPage ↔ kernelPage < x / 4096 ∧ e.Releases (x / 4096) := by
  unfold MapEntry.pageBytes MapEntry.Releases
  rw [Set.mem_Ico, and_iff_right he]
  omega

/-- The loop over an entry starts at the page of its base when the page number fits 32 bits. -/
theorem MapEntry.firstPage_of_lt (h : e.baseAddr.toNat < 2 ^ 44) :
    e.firstPage = e.baseAddr.toNat / 4096 := by
  unfold MapEntry.firstPage
  omega

/-- An entry with a usable range behind the managed memory ends behind it. -/
theorem MapEntry.lastPage_of_le (h : 2 ^ 44 ≤ e.baseAddr.toNat) : e.lastPage = 32768 := by
  unfold MapEntry.lastPage
  omega

/-- Where the usable entries come as whole pages, the bytes of a released page are usable. -/
theorem WholePages.isUsable (h : WholePages es kernelPage) (he : e ∈ es)
    (hkernel : kernelPage < x / 4096) (hreleases : e.Releases (x / 4096)) : IsUsable es x := by
  obtain ⟨hend, hmanaged⟩ := hreleases.lt_end
  by_cases hcontains : e.baseAddr.toNat ≤ x
  · exact ⟨e, he, hreleases.1, hcontains, hend⟩
  · rcases lt_or_ge e.baseAddr.toNat (2 ^ 44) with hlow | hhigh
    · have hfirst := hreleases.2.1
      have hlast := hreleases.2.2
      rw [MapEntry.firstPage_of_lt hlow] at hfirst
      have hpage : x / 4096 = e.baseAddr.toNat / 4096 := by omega
      rw [hpage] at hkernel hlast
      exact h.aligned e he hreleases.1 hlow hkernel hlast x (by omega) (by omega)
    · exact h.lowBase e he hreleases.1 hhigh x hkernel hreleases.2.1 hmanaged

/-- The bytes of released pages are usable and not reserved exactly when the usable entries come
as whole pages. -/
theorem wholePages_iff : (∀ x, kernelPage < x / 4096 → (∃ e ∈ es, e.Releases (x / 4096)) →
    IsUsable es x ∧ ¬ IsReserved es x) ↔ WholePages es kernelPage := by
  constructor
  · intro h
    refine ⟨fun e he husable hlow hkernel hlast x hlo hhi => ?_,
      fun e he husable hhigh x hkernel hfirst hmanaged => ?_,
      fun e he husable e' he' hother => Set.disjoint_left.mpr fun x hx hin => ?_⟩
    · have hpage : x / 4096 = e.baseAddr.toNat / 4096 := by omega
      refine (h x (by rwa [hpage]) ⟨e, he, husable, ?_, ?_⟩).1
      · rw [MapEntry.firstPage_of_lt hlow, hpage]
      · rwa [hpage]
    · refine (h x hkernel ⟨e, he, husable, hfirst, ?_⟩).1
      rw [MapEntry.lastPage_of_le hhigh]
      omega
    · obtain ⟨hkernel, hreleases⟩ := (MapEntry.mem_pageBytes husable).mp hx
      exact (h x hkernel ⟨e, he, hreleases⟩).2 ⟨e', he', hother, hin⟩
  · rintro h x hkernel ⟨e, he, hreleases⟩
    refine ⟨h.isUsable he hkernel hreleases, ?_⟩
    rintro ⟨e', he', hother, hin⟩
    have hx := (MapEntry.mem_pageBytes hreleases.1).mpr ⟨hkernel, hreleases⟩
    exact Set.disjoint_left.mp (h.apart e he hreleases.1 e' he' hother) hx hin

/-- For every memory map whose walk ends and whose entries end inside the 64-bit address space:
`pmm_init` frees only pages that are usable as a whole, and in no part reserved, exactly when the
usable entries come as whole pages. -/
theorem freePages_usable_iff {m : Memory} {kernelEnd multibootInfoAddr : U32} {turns : ℕ}
    (start : Pmm) (hmap : memoryMap m turns multibootInfoAddr = some es)
    (hbounded : ∀ e ∈ es, e.Bounded) :
    ∃ p, pmmInit m kernelEnd turns multibootInfoAddr start = some p ∧
      ((∀ page, p.Free page → ∀ x, x / 4096 = page.toNat →
        IsUsable es x ∧ ¬ IsReserved es x) ↔ WholePages es (kernelEnd.toNat / 4096)) := by
  obtain ⟨p, hinit⟩ : ∃ p, pmmInit m kernelEnd turns multibootInfoAddr start = some p := by
    rw [pmmInit_eq, hmap]
    exact ⟨_, rfl⟩
  refine ⟨p, hinit, Iff.trans ⟨fun h x hkernel hreleased => ?_, fun h page hfree x hx => ?_⟩
    wholePages_iff⟩
  · obtain ⟨e, he, hreleases⟩ := hreleased
    have hmanaged := hreleases.lt_end.2
    have hpage : (BitVec.ofNat 32 (x / 4096)).toNat = x / 4096 := by
      rw [BitVec.toNat_ofNat]
      omega
    refine h (BitVec.ofNat 32 (x / 4096)) ?_ x hpage.symm
    rw [pmmInit_free_iff hmap hbounded hinit, hpage]
    exact ⟨hkernel, e, he, hreleases⟩
  · obtain ⟨hkernel, hreleased⟩ := (pmmInit_free_iff hmap hbounded hinit).mp hfree
    rw [← hx] at hkernel hreleased
    exact h x hkernel hreleased

end

/-- The one region comes as whole pages. -/
theorem oneRegion_freePages : ∃ p,
    pmmInit oneRegion 0x180000#32 2 0x1000#32 ⟨fun _ => 0#8, 0#32⟩ = some p ∧
      ((∀ page, p.Free page → ∀ x, x / 4096 = page.toNat →
        IsUsable [⟨0x100000#64, 0x100000#64, 1#32⟩] x ∧
          ¬ IsReserved [⟨0x100000#64, 0x100000#64, 1#32⟩] x) ↔
        WholePages [⟨0x100000#64, 0x100000#64, 1#32⟩] ((0x180000#32).toNat / 4096)) :=
  freePages_usable_iff _ memoryMap_oneRegion (by decide)

/-- A boot with one usable region of 6 KB that begins in the middle of page 512. -/
def unalignedRegion : Memory :=
  (oneRegion.store32 0x2004#32 0x200800#32).store32 0x200C#32 0x1800#32

/-- With that region `pmm_init` frees page 512, whose first half is in no entry of the map. -/
theorem unalignedRegion_freePages : ∃ p es,
    memoryMap unalignedRegion 2 0x1000#32 = some es ∧ (∀ e ∈ es, e.Bounded) ∧
      pmmInit unalignedRegion 0x180000#32 2 0x1000#32 ⟨fun _ => 0#8, 0#32⟩ = some p ∧
      p.Free 512#32 ∧ 0x200000 / 4096 = (512#32).toNat ∧ ¬ IsUsable es 0x200000 := by
  have hmap : memoryMap unalignedRegion 2 0x1000#32 = some [⟨0x200800#64, 0x1800#64, 1#32⟩] := by
    decide
  obtain ⟨p, hinit⟩ : ∃ p, pmmInit unalignedRegion 0x180000#32 2 0x1000#32
      ⟨fun _ => 0#8, 0#32⟩ = some p := by
    rw [pmmInit_eq, hmap]
    exact ⟨_, rfl⟩
  refine ⟨p, _, hmap, by decide, hinit, (pmmInit_free_iff hmap (by decide) hinit).mpr (by decide),
    by decide, ?_⟩
  rintro ⟨e, he, -, hbase, -⟩
  obtain rfl := List.mem_singleton.mp he
  exact absurd hbase (by decide)

end AlderKernel.Mm
