import AlderKernel.Mm.AllocSizes

/-!
# What a null pointer says about memory

When no block is big enough, `kmalloc` takes pages from the lowest free page on, up to the first
gap, and tries no further run. So a null pointer means that there is no run of free pages that is
long enough, except where a long run stands behind a short one.
-/

namespace AlderKernel.Mm

open Machine

/-- The number of pages for a request of `n` bytes, rounded up, with its header. -/
def pagesFor (n : U32) : ℕ := ((alignUp n alignment).toNat + 16 + 4095) / 4096

/-- The pages from `q` on are free, `k` of them. -/
def FreeRun (p : Pmm) (q : U32) (k : ℕ) : Prop :=
  ∀ x : U32, q.toNat ≤ x.toNat → x.toNat < q.toNat + k → p.Free x

/-- The lowest free page. -/
def Pmm.Lowest (p : Pmm) (q : U32) : Prop := p.Free q ∧ ∀ x, p.Free x → q ≤ x

/-- There is a run of `k` free pages, but the lowest free page starts none. -/
def HiddenRun (p : Pmm) (k : ℕ) : Prop :=
  (∃ q, FreeRun p q k) ∧ ∀ q, p.Lowest q → ¬ FreeRun p q k

section

variable {start p p' : Pmm} {s : Heap} {live : Set U32} {l l' : List Block}
  {n size first got pages q : U32} {r : U32 × Heap}

/-- Every request takes a page. -/
theorem pagesFor_pos (n : U32) : 0 < pagesFor n := by
  unfold pagesFor
  omega

/-- Up to `2 ^ 31` bytes, `kmalloc` asks for that many pages. -/
theorem toNat_needPages (hmax : n.toNat ≤ 2 ^ 31) :
    (needPages (alignUp n alignment)).toNat = pagesFor n := by
  have halign := toNat_alignUp n
  have hsum : (alignUp n alignment + headerSize + pageSize - 1#32).toNat =
      (alignUp n alignment).toNat + 16 + 4095 := by
    unfold headerSize pageSize
    bv_omega
  have hdiv : ((alignUp n alignment + headerSize + pageSize - 1#32) / pageSize).toNat =
      pagesFor n := by
    rw [BitVec.toNat_udiv, hsum]
    rfl
  have hpos := pagesFor_pos n
  unfold needPages
  dsimp only
  rw [if_neg, hdiv]
  bv_omega

/-- The first page of an extension is the lowest free one. -/
theorem ObtainsPages.lowest_first (h : ObtainsPages p pages first got.toNat p') : p.Lowest first :=
  ⟨h.run.free first le_rfl (Nat.lt_add_of_pos_right h.pos), h.lowest⟩

/-- There is one lowest free page. -/
theorem Pmm.Lowest.unique (h : p.Lowest first) (hq : p.Lowest q) : first = q :=
  BitVec.le_antisymm (h.2 q hq.1) (hq.2 first h.1)

/-- An extension gets as many of its pages as there are free ones in a row. -/
theorem ObtainsPages.freeRun_iff (h : ObtainsPages p pages first got.toNat p') {k : ℕ}
    (hk : k ≤ pages.toNat) : FreeRun p first k ↔ k ≤ got.toNat := by
  constructor
  · intro hrun
    by_contra hlt
    have hbound := h.bound
    have hpage : (BitVec.ofNat 32 (first.toNat + got.toNat)).toNat = first.toNat + got.toNat := by
      rw [BitVec.toNat_ofNat]
      omega
    exact h.run.stops (by omega) _ hpage (hrun _ (by omega) (by omega))
  · intro hle x hlo hhi
    exact h.run.free x hlo (by omega)

/-- It is big enough exactly when the lowest free page starts a run that is long enough. -/
theorem ObtainsPages.enough_iff (hmax : n.toNat ≤ 2 ^ 31)
    (h : ObtainsPages p (needPages (alignUp n alignment)) first got.toNat p') :
    alignUp n alignment ≤ (newBlock first got).size ↔ FreeRun p first (pagesFor n) := by
  have hpos := h.pos
  rw [h.freeRun_iff (toNat_needPages hmax).ge, BitVec.le_def, size_newBlock h]
  unfold pagesFor
  omega

/-- `kmalloc` fails when no block fits and the lowest free page starts no run that is long
enough. -/
theorem HeapInv.fails_iff (h : HeapInv start s live l) (hpos : ∀ q, start.Free q → q ≠ 0#32)
    (hmax : n.toNat ≤ 2 ^ 31) (hsteps : KmallocSteps s l (alignUp n alignment) r l') :
    r.1 = 0#32 ↔ (∀ b ∈ l, ¬ b.Fits (alignUp n alignment)) ∧
      ∀ q, s.pmm.Lowest q → ¬ FreeRun s.pmm q (pagesFor n) := by
  cases hsteps with
  | found pre b post hl hfirst hfits =>
    subst hl
    refine iff_of_false (h.accounts.arranged.payload_ne_zero (by simp)) ?_
    rintro ⟨hnone, -⟩
    exact hnone b (by simp) hfits
  | grown first got s' hnone hpages hrepresents hused hcount hsize =>
    have harr := (h.accounts.extend hpos hpages).arranged
    refine iff_of_false (harr.payload_ne_zero (b := newBlock first got) (by simp)) ?_
    rintro ⟨-, hshort⟩
    exact hshort first hpages.lowest_first ((hpages.enough_iff hmax).mp hsize)
  | tooSmall first got s' hnone hpages hrepresents hused hcount hsize =>
    refine iff_of_true rfl ⟨hnone, fun q hq hrun => ?_⟩
    obtain rfl := hpages.lowest_first.unique hq
    exact absurd ((hpages.enough_iff hmax).mpr hrun) (BitVec.not_le.mpr hsize)
  | noPage hnone hpages => exact iff_of_true rfl ⟨hnone, fun q hq => absurd hq.1 (hpages q)⟩

/-- What a null pointer means. In every state that the heap reaches, and for every request of 1 up
to `2 ^ 31` bytes, `kmalloc` ends; that it returns a null pointer only where no run of free pages is
long enough holds if and only if some block fits or no such run is hidden behind a shorter one. -/
theorem kmalloc_outOfMemory_iff {m : Memory} {kernelEnd multibootInfoAddr : U32} {turns : ℕ}
    {boot : Pmm} (hinit : pmmInit m kernelEnd turns multibootInfoAddr boot = some start)
    (hreach : Reachable start s live) (hn : n ≠ 0#32) (hmax : n.toNat ≤ 2 ^ 31) :
    ∃ ptr s' l, kmalloc n s = some (ptr, s') ∧ WellFormed start s live l ∧
      ((ptr = 0#32 → ¬ ∃ q, FreeRun s.pmm q (pagesFor n)) ↔
        (∃ b ∈ l, b.Fits (alignUp n alignment)) ∨ ¬ HiddenRun s.pmm (pagesFor n)) := by
  have hpos := free_ne_zero hinit
  obtain ⟨l, hinv⟩ := hreach.heapInv hpos
  obtain ⟨⟨ptr, s'⟩, l', hrun, hsteps⟩ := hinv.kmalloc_steps hpos hn
  refine ⟨ptr, s', l, hrun, hinv.wellFormed, ?_⟩
  have hfails : ptr = 0#32 ↔ _ := hinv.fails_iff hpos hmax hsteps
  rw [hfails]
  unfold HiddenRun
  by_cases hfits : ∃ b ∈ l, b.Fits (alignUp n alignment)
  · obtain ⟨b, hb, hfits'⟩ := hfits
    exact iff_of_true (fun hnull => absurd hfits' (hnull.1 b hb)) (.inl ⟨b, hb, hfits'⟩)
  · rw [or_iff_right hfits]
    have hnone : ∀ b ∈ l, ¬ b.Fits (alignUp n alignment) := fun b hb hb' => hfits ⟨b, hb, hb'⟩
    constructor
    · rintro hnull ⟨hlong, hshort⟩
      exact hnull ⟨hnone, hshort⟩ hlong
    · rintro hvisible ⟨-, hshort⟩ hlong
      exact hvisible ⟨hlong, hshort⟩

end

/-- A boot with two usable regions, from 1 MB to 0x192000 and from 2 MB to 3 MB. -/
def twoRegions : Memory :=
  let m : Memory := ⟨fun _ => 0#8⟩
  let m := ((m.store32 0x1000#32 0x40#32).store32 0x102C#32 48#32).store32 0x1030#32 0x2000#32
  let m := (m.store32 0x2000#32 20#32).store32 0x2004#32 0x100000#32
  let m := (m.store32 0x200C#32 0x92000#32).store32 0x2014#32 1#32
  let m := (m.store32 0x2018#32 20#32).store32 0x201C#32 0x200000#32
  (m.store32 0x2024#32 0x100000#32).store32 0x202C#32 1#32

/-- Its entries. -/
theorem memoryMap_twoRegions : memoryMap twoRegions 3 0x1000#32 =
    some [⟨0x100000#64, 0x92000#64, 1#32⟩, ⟨0x200000#64, 0x100000#64, 1#32⟩] := by
  decide

/-- With a kernel image up to 0x180000, `heap_init` takes 16 of 17 free pages of the first region.
The last of them is left, and the 256 pages of the second region. -/
theorem heapInit_twoRegions : ∃ start s first got,
    pmmInit twoRegions 0x180000#32 3 0x1000#32 ⟨fun _ => 0#8, 0#32⟩ = some start ∧
      Reachable start s ∅ ∧ HeapInv start s ∅ [newBlock first got] ∧
      (newBlock first got).size = 65520#32 ∧
      ∀ q, s.pmm.Free q ↔ q = 401#32 ∨ 512 ≤ q.toNat ∧ q.toNat < 768 := by
  obtain ⟨start, hinit⟩ : ∃ start,
      pmmInit twoRegions 0x180000#32 3 0x1000#32 ⟨fun _ => 0#8, 0#32⟩ = some start := by
    rw [pmmInit_eq, memoryMap_twoRegions]
    exact ⟨_, rfl⟩
  have hfree (q : U32) : start.Free q ↔
      385 ≤ q.toNat ∧ q.toNat < 402 ∨ 512 ≤ q.toNat ∧ q.toNat < 768 := by
    rw [pmmInit_free_iff memoryMap_twoRegions (by decide) hinit]
    have hkernel : (0x180000#32).toNat / 4096 = 384 := by decide
    have hlow : (⟨0x100000#64, 0x92000#64, 1#32⟩ : MapEntry).Releases q.toNat ↔
        256 ≤ q.toNat ∧ q.toNat < 402 := and_iff_right rfl
    have hhigh : (⟨0x200000#64, 0x100000#64, 1#32⟩ : MapEntry).Releases q.toNat ↔
        512 ≤ q.toNat ∧ q.toNat < 768 := and_iff_right rfl
    simp only [List.mem_cons, List.not_mem_nil, or_false, exists_eq_or_imp, exists_eq_left, hkernel,
      hlow, hhigh]
    omega
  obtain ⟨s, l, hrun, hinv, -, ⟨hnone, -⟩ | ⟨first, got, rfl, hpages⟩⟩ :=
    heapInv_init (s := ⟨twoRegions, start, 0#32, 0#32, 0#32⟩) (free_ne_zero hinit) rfl
  · exact absurd ((hfree 400#32).mpr (by decide)) (hnone _)
  have htotal : heapInitialPages.toNat = 16 := rfl
  have hlowest : start.Lowest 385#32 := by
    refine ⟨(hfree _).mpr (by decide), fun x hx => ?_⟩
    have hx' := (hfree x).mp hx
    bv_omega
  obtain rfl := hpages.lowest_first.unique hlowest
  have hgot : got.toNat = 16 := by
    have hle : 16 ≤ got.toNat := (hpages.freeRun_iff htotal.ge).mp fun x hlo hhi =>
      (hfree x).mpr (by bv_omega)
    have hturns := hpages.run.le_turns
    omega
  have hsize := size_newBlock hpages
  refine ⟨start, s, _, got, hinit, .init rfl hrun, hinv, by bv_omega, fun q => ?_⟩
  rw [hpages.run.rest, hfree, hgot]
  bv_omega

/-- There, `kmalloc` of 65536 bytes finds page 401 and then a gap, and fails in front of 256 free
pages. -/
theorem twoRegions_not_outOfMemory : ∃ start s s',
    pmmInit twoRegions 0x180000#32 3 0x1000#32 ⟨fun _ => 0#8, 0#32⟩ = some start ∧
      Reachable start s ∅ ∧ kmalloc 65536#32 s = some (0#32, s') ∧
      FreeRun s.pmm 512#32 (pagesFor 65536#32) := by
  obtain ⟨start, s, first, got, hinit, hreach, hinv, hsize, hfree⟩ := heapInit_twoRegions
  have hpos := free_ne_zero hinit
  have hneed : pagesFor 65536#32 = 17 := by decide
  have halign : alignUp 65536#32 alignment = 65536#32 := by decide
  obtain ⟨⟨ptr, s'⟩, l', hrun, hsteps⟩ := hinv.kmalloc_steps hpos (n := 65536#32) (by decide)
  have hnull : ptr = 0#32 := by
    refine (hinv.fails_iff hpos (by decide) hsteps).mpr ⟨fun b hb hfits => ?_, fun q hq hlong => ?_⟩
    · obtain rfl := List.mem_singleton.mp hb
      have hle := hfits.2
      rw [halign, hsize] at hle
      exact absurd hle (by decide)
    · have hle : q ≤ 401#32 := hq.2 _ ((hfree _).mpr (.inl rfl))
      have hpage := (hfree q).mp hq.1
      rw [hneed] at hlong
      have hgap := (hfree 402#32).mp (hlong 402#32 (by bv_omega) (by bv_omega))
      exact absurd hgap (by decide)
  subst hnull
  refine ⟨start, s, s', hinit, hreach, hrun, fun x hlo hhi => ?_⟩
  rw [hneed] at hhi
  exact (hfree x).mpr (.inr (by bv_omega))

/-- A request that the first block serves is no exception. -/
theorem twoRegions_outOfMemory : ∃ start s ptr s',
    pmmInit twoRegions 0x180000#32 3 0x1000#32 ⟨fun _ => 0#8, 0#32⟩ = some start ∧
      Reachable start s ∅ ∧ kmalloc 100#32 s = some (ptr, s') ∧
      (ptr ≠ 0#32 ∨ ¬ ∃ q, FreeRun s.pmm q (pagesFor 100#32)) := by
  obtain ⟨start, s, first, got, hinit, hreach, hinv, hsize, -⟩ := heapInit_twoRegions
  obtain ⟨ptr, s', l, hrun, hwell, hiff⟩ :=
    kmalloc_outOfMemory_iff hinit hreach (n := 100#32) (by decide) (by decide)
  obtain rfl := hwell.unique hinv.wellFormed
  have halign : alignUp 100#32 alignment = 104#32 := by decide
  have hfits : (newBlock first got).Fits (alignUp 100#32 alignment) := by
    rw [halign]
    exact ⟨rfl, by rw [hsize]; decide⟩
  have hnull := hiff.mpr (.inl ⟨_, List.mem_singleton_self _, hfits⟩)
  refine ⟨start, s, ptr, s', hinit, hreach, hrun, ?_⟩
  by_cases hptr : ptr = 0#32
  · exact .inr (hnull hptr)
  · exact .inl hptr

end AlderKernel.Mm
