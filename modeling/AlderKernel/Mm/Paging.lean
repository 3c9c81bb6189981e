import AlderKernel.Machine.Words
import AlderKernel.Mm.FreePages

/-!
# Paging

`kernel/mm/paging.c`: one page directory and 32 page tables that map the first 128 MB to
themselves. `IDENTITY_MAP_MB` must match the `MAX_MANAGED_MEMORY` of `pmm.c`, so that every page
that the page allocator hands out is mapped. The walk is that of the processor, from the register
`CR3` over directory and table.
-/

namespace AlderKernel.Mm

open Machine

/-- `PAGE_SIZE` of `paging.c`. -/
def pagingPageSize : U32 := 4096#32

/-- `ENTRIES_PER_TABLE`. -/
def entriesPerTable : U32 := 1024#32

/-- `IDENTITY_MAP_MB`. -/
def identityMapMb : U32 := 128#32

/-- `TABLES_NEEDED`: each table covers 4 MB. -/
def tablesNeeded : U32 := identityMapMb / 4#32

/-- `PAGE_PRESENT`. -/
def pagePresent : U32 := 0x1#32

/-- `PAGE_RW`. -/
def pageRw : U32 := 0x2#32

/-- The memory and the registers that paging depends on. -/
structure PagingState where
  mem : Memory
  cr0 : U32
  cr3 : U32

/-- `&page_tables[table][0]`. -/
def tableAddr (pageTables : U32) (table : ℕ) : U32 := wordAddr pageTables (1024 * table)

/-- The value of `page_tables[table][entry]`. -/
def pageEntry (table entry : ℕ) : U32 :=
  let phys := (BitVec.ofNat 32 table * entriesPerTable + BitVec.ofNat 32 entry) * pagingPageSize
  phys ||| pagePresent ||| pageRw

/-- The loop of `paging_init` over the tables that are needed. -/
def fillTables (pageDirectory pageTables : U32) : ℕ → ℕ → Memory → Memory
  | 0, _, m => m
  | turns + 1, table, m =>
    let m := m.storeWords (tableAddr pageTables table) (pageEntry table) entriesPerTable.toNat 0
    let m := m.store32 (wordAddr pageDirectory table)
      (tableAddr pageTables table ||| pagePresent ||| pageRw)
    fillTables pageDirectory pageTables turns (table + 1) m

/-- `enable_paging`. -/
def enablePaging (pageDirectoryPhys : U32) (s : PagingState) : PagingState :=
  { s with cr0 := s.cr0 ||| 0x80000000#32, cr3 := pageDirectoryPhys }

/-- `paging_init`, with the addresses of the arrays `page_directory` and `page_tables`. -/
def pagingInit (pageDirectory pageTables : U32) (s : PagingState) : PagingState :=
  let m := fillTables pageDirectory pageTables tablesNeeded.toNat 0 s.mem
  let m := m.storeWords pageDirectory (fun _ => 0#32) (entriesPerTable - tablesNeeded).toNat
    tablesNeeded.toNat
  enablePaging pageDirectory { s with mem := m }

/-- What the processor makes of a linear address. -/
inductive Translation where
  | noDirectoryEntry
  | noTableEntry
  | mapped (physical : U32) (writable : Bool)
  deriving DecidableEq

/-- The address of an entry of the table that an entry or a register points to. -/
def entryAddr (e : U32) (index : BitVec 10) : U32 := e.extractLsb' 12 20 ++ index ++ 0#2

/-- The walk over directory and table, without large pages. -/
def walkTables (m : Memory) (cr3 v : U32) : Translation :=
  let pde := m.load32 (entryAddr cr3 (v.extractLsb' 22 10))
  if ¬ pde.getLsbD 0 then .noDirectoryEntry else
  let pte := m.load32 (entryAddr pde (v.extractLsb' 12 10))
  if ¬ pte.getLsbD 0 then .noTableEntry else
  .mapped (pte.extractLsb' 12 20 ++ v.extractLsb' 0 12) (pde.getLsbD 1 && pte.getLsbD 1)

/-- The translation of a linear address: the walk, when the bit PG of `CR0` is set. -/
def translate (s : PagingState) (v : U32) : Translation :=
  if s.cr0.getLsbD 31 then walkTables s.mem s.cr3 v else .mapped v true

/-- The arrays of `paging.c` are aligned, lie below 128 MB, and are different objects. -/
structure ArraysPlaced (pageDirectory pageTables : U32) : Prop where
  directoryAligned : pageDirectory.toNat % 4096 = 0
  tablesAligned : pageTables.toNat % 4096 = 0
  directoryBelow : pageDirectory.toNat + 4096 ≤ 128 * 1024 * 1024
  tablesBelow : pageTables.toNat + 32 * 4096 ≤ 128 * 1024 * 1024
  disjoint : pageDirectory.toNat + 4096 ≤ pageTables.toNat ∨
    pageTables.toNat + 32 * 4096 ≤ pageDirectory.toNat

section

variable {pageDirectory pageTables e v : U32} {table entry turns : ℕ} {m : Memory}

/-! ### Entries -/

/-- An entry with both flags is present and writable, and points to the same frame as without
them. -/
theorem flagged_entry (e : U32) : (e ||| pagePresent ||| pageRw).getLsbD 0 = true ∧
    (e ||| pagePresent ||| pageRw).getLsbD 1 = true ∧
    (e ||| pagePresent ||| pageRw).extractLsb' 12 20 = e.extractLsb' 12 20 := by
  refine ⟨?_, ?_, ?_⟩
  · simp [pagePresent]
  · simp [pageRw]
  · have hpresent : pagePresent.extractLsb' 12 20 = 0#20 := by decide
    have hrw : pageRw.extractLsb' 12 20 = 0#20 := by decide
    rw [BitVec.extractLsb'_or, BitVec.extractLsb'_or, hpresent, hrw, BitVec.or_zero, BitVec.or_zero]

/-- The entries of an aligned table stand in it one after the other. -/
theorem entryAddr_eq {base : U32} (hbase : base.toNat % 4096 = 0)
    (hframe : e.extractLsb' 12 20 = base.extractLsb' 12 20) (index : BitVec 10) :
    entryAddr e index = wordAddr base index.toNat := by
  have hindex := index.isLt
  have hlt := base.isLt
  have hvalue : (base.extractLsb' 12 20 ++ index ++ 0#2).toNat = base.toNat + 4 * index.toNat := by
    rw [append_toNat, append_toNat, BitVec.extractLsb'_toNat, Nat.shiftRight_eq_div_pow,
      BitVec.toNat_zero]
    omega
  unfold entryAddr
  rw [hframe]
  apply BitVec.eq_of_toNat_eq
  refine hvalue.trans ?_
  unfold wordAddr
  bv_omega

/-- The frame of a page and the offset in it. -/
theorem pageEntry_frame (hv : v.toNat < 2 ^ 27) :
    (pageEntry (v.toNat / 2 ^ 22) (v.toNat / 2 ^ 12 % 2 ^ 10)).extractLsb' 12 20 ++
      v.extractLsb' 0 12 = v := by
  have hphys : ((BitVec.ofNat 32 (v.toNat / 2 ^ 22) * entriesPerTable +
      BitVec.ofNat 32 (v.toNat / 2 ^ 12 % 2 ^ 10)) * pagingPageSize).toNat =
        v.toNat / 2 ^ 12 * 2 ^ 12 := by
    unfold entriesPerTable pagingPageSize
    bv_omega
  unfold pageEntry
  dsimp only
  rw [(flagged_entry _).2.2]
  apply BitVec.eq_of_toNat_eq
  rw [append_toNat, BitVec.extractLsb'_toNat, BitVec.extractLsb'_toNat, hphys,
    Nat.shiftRight_eq_div_pow, Nat.shiftRight_zero]
  omega

/-! ### The tables in memory -/

/-- All tables together are one array of words. -/
theorem wordAddr_tableAddr (pageTables : U32) (table entry : ℕ) :
    wordAddr (tableAddr pageTables table) entry = wordAddr pageTables (1024 * table + entry) := by
  unfold tableAddr wordAddr
  rw [Nat.mul_add, BitVec.ofNat_add, BitVec.add_assoc]

/-- The words of the directory and those of the tables are separated from one another. -/
theorem ArraysPlaced.apart (h : ArraysPlaced pageDirectory pageTables) {t k : ℕ} (ht : t < 1024)
    (hk : k < 32768) : Apart (wordAddr pageDirectory t) 4 (wordAddr pageTables k) 4 := by
  obtain ⟨-, -, hdirectory, htables, hdisjoint⟩ := h
  unfold Apart wordAddr
  rcases hdisjoint with hbelow | habove
  · bv_omega
  · bv_omega

/-- The loop over the tables leaves a word alone that is separated from what it stores. -/
theorem load32_fillTables_of_apart {b : U32}
    (hdirectory : ∀ t, table ≤ t → t < table + turns → Apart (wordAddr pageDirectory t) 4 b 4)
    (htables : ∀ t i, table ≤ t → t < table + turns → i < 1024 →
      Apart (wordAddr pageTables (1024 * t + i)) 4 b 4) :
    (fillTables pageDirectory pageTables turns table m).load32 b = m.load32 b := by
  induction turns generalizing table m with
  | zero => rfl
  | succ turns ih =>
    unfold fillTables
    dsimp only
    rw [ih (fun t hlo hhi => hdirectory t (by omega) (by omega))
        fun t i hlo hhi => htables t i (by omega) (by omega),
      Memory.load32_store32_of_apart (hdirectory table le_rfl (by omega)),
      Memory.load32_storeWords_of_apart fun i _ hi => ?_]
    rw [wordAddr_tableAddr]
    rw [Nat.zero_add] at hi
    exact htables table i le_rfl (by omega) hi

/-- It stores the entries of its tables, and the entries of the directory that point to them. -/
theorem fillTables_spec (h : ArraysPlaced pageDirectory pageTables) (hmax : table + turns ≤ 32)
    {t : ℕ} (hlo : table ≤ t) (hhi : t < table + turns) :
    let m' := fillTables pageDirectory pageTables turns table m
    m'.load32 (wordAddr pageDirectory t) = tableAddr pageTables t ||| pagePresent ||| pageRw ∧
      ∀ i < 1024, m'.load32 (wordAddr (tableAddr pageTables t) i) = pageEntry t i := by
  have hwords : pageTables.toNat + 4 * 32768 ≤ 2 ^ 32 := by
    have hbelow := h.tablesBelow
    omega
  have hdirectory : pageDirectory.toNat + 4 * 1024 ≤ 2 ^ 32 := by
    have hbelow := h.directoryBelow
    omega
  induction turns generalizing table m with
  | zero => omega
  | succ turns ih =>
    by_cases hfirst : t = table
    · subst hfirst
      unfold fillTables
      dsimp only
      constructor
      · rw [load32_fillTables_of_apart, Memory.load32_store32_self]
        · exact fun u hlo' hhi' => apart_words (by omega) (by omega) (by omega) hdirectory
        · exact fun u i hlo' hhi' hi => (h.apart (by omega) (by omega)).symm
      · intro i hi
        have htotal : entriesPerTable.toNat = 1024 := rfl
        rw [load32_fillTables_of_apart, Memory.load32_store32_of_apart,
          Memory.load32_storeWords (Nat.zero_le i) (by omega)]
        · have hbelow := h.tablesBelow
          unfold tableAddr wordAddr
          bv_omega
        · rw [wordAddr_tableAddr]
          exact h.apart (by omega) (by omega)
        · rw [wordAddr_tableAddr]
          exact fun u hlo' hhi' => h.apart (by omega) (by omega)
        · rw [wordAddr_tableAddr]
          exact fun u j hlo' hhi' hj => apart_words (by omega) (by omega) (by omega) hwords
    · exact ih (by omega) (by omega) (by omega)

/-- The directory and the tables after `paging_init`. -/
theorem pagingInit_tables (h : ArraysPlaced pageDirectory pageTables) (s : PagingState) {t : ℕ}
    (ht : t < 1024) :
    (pagingInit pageDirectory pageTables s).mem.load32 (wordAddr pageDirectory t) =
        (if t < 32 then tableAddr pageTables t ||| pagePresent ||| pageRw else 0#32) ∧
      (t < 32 → ∀ i < 1024, (pagingInit pageDirectory pageTables s).mem.load32
        (wordAddr (tableAddr pageTables t) i) = pageEntry t i) := by
  have hneeded : tablesNeeded.toNat = 32 := rfl
  have hrest : (entriesPerTable - tablesNeeded).toNat = 992 := rfl
  have hdirectory : pageDirectory.toNat + 4 * 1024 ≤ 2 ^ 32 := by
    have hbelow := h.directoryBelow
    omega
  unfold pagingInit
  dsimp only [enablePaging]
  rw [hneeded, hrest]
  constructor
  · split_ifs with hlow
    · rw [Memory.load32_storeWords_of_apart]
      · exact (fillTables_spec h (by omega) (Nat.zero_le t) (by omega)).1
      · exact fun i hlo hhi => apart_words (by omega) (by omega) (by omega) hdirectory
    · exact Memory.load32_storeWords (by omega) (by omega) hdirectory
  · intro hlow i hi
    rw [Memory.load32_storeWords_of_apart]
    · exact (fillTables_spec h (by omega) (Nat.zero_le t) (by omega)).2 i hi
    · rw [wordAddr_tableAddr]
      exact fun k hlo hhi => h.apart (by omega) (by omega)

/-! ### The translation -/

/-- Below 128 MB every address is mapped to itself, present and writable; above there is no
directory entry. -/
theorem translate_pagingInit (h : ArraysPlaced pageDirectory pageTables) (s : PagingState)
    (v : U32) :
    translate (pagingInit pageDirectory pageTables s) v =
      if v.toNat < 128 * 1024 * 1024 then .mapped v true else .noDirectoryEntry := by
  have hv := v.isLt
  have hpg : (pagingInit pageDirectory pageTables s).cr0.getLsbD 31 = true := by
    show (s.cr0 ||| 0x80000000#32).getLsbD 31 = true
    simp
  have hindex : (v.extractLsb' 22 10).toNat = v.toNat / 2 ^ 22 := by
    rw [BitVec.extractLsb'_toNat, Nat.shiftRight_eq_div_pow]
    omega
  have hentry : (v.extractLsb' 12 10).toNat = v.toNat / 2 ^ 12 % 2 ^ 10 := by
    rw [BitVec.extractLsb'_toNat, Nat.shiftRight_eq_div_pow]
  obtain ⟨hdirectory, htable⟩ := pagingInit_tables h s (t := v.toNat / 2 ^ 22) (by omega)
  have hcr3 : (pagingInit pageDirectory pageTables s).cr3 = pageDirectory := rfl
  unfold translate walkTables
  rw [if_pos hpg, hcr3, entryAddr_eq h.directoryAligned rfl, hindex, hdirectory]
  by_cases hlow : v.toNat < 128 * 1024 * 1024
  · have haligned : (tableAddr pageTables (v.toNat / 2 ^ 22)).toNat % 4096 = 0 := by
      have htables := h.tablesAligned
      have hbelow := h.tablesBelow
      unfold tableAddr wordAddr
      bv_omega
    obtain ⟨hpresent, hrw, hframe⟩ := flagged_entry (tableAddr pageTables (v.toNat / 2 ^ 22))
    obtain ⟨hpresent', hrw', -⟩ :
        (pageEntry (v.toNat / 2 ^ 22) (v.toNat / 2 ^ 12 % 2 ^ 10)).getLsbD 0 =
        true ∧ (pageEntry (v.toNat / 2 ^ 22) (v.toNat / 2 ^ 12 % 2 ^ 10)).getLsbD 1 = true ∧ _ :=
      flagged_entry _
    rw [if_pos (show v.toNat / 2 ^ 22 < 32 by omega), if_pos hlow]
    dsimp only
    rw [if_neg (not_not_intro hpresent), entryAddr_eq haligned hframe, hentry,
      htable (by omega) _ (by omega), if_neg (not_not_intro hpresent'), hrw, hrw',
      pageEntry_frame (by omega), Bool.and_self]
  · rw [if_neg (show ¬ v.toNat / 2 ^ 22 < 32 by omega), if_neg hlow]
    rfl

end

/-- Paging is the identity exactly on the managed memory. Every address below 128 MB is mapped to
itself, present and writable, and no other address has a directory entry; so every byte of a page
that `pmm_alloc_page` returns is mapped to itself. -/
theorem paging_identity {pageDirectory pageTables : U32} (h : ArraysPlaced pageDirectory pageTables)
    (s : PagingState) :
    (∀ v, translate (pagingInit pageDirectory pageTables s) v =
      if v.toNat < 128 * 1024 * 1024 then .mapped v true else .noDirectoryEntry) ∧
    ∀ p : Pmm, (pmmAllocPage p).1 ≠ 0#32 → ∀ i < 4096,
      translate (pagingInit pageDirectory pageTables s) ((pmmAllocPage p).1 + BitVec.ofNat 32 i) =
        .mapped ((pmmAllocPage p).1 + BitVec.ofNat 32 i) true := by
  refine ⟨translate_pagingInit h s, fun p hp i hi => ?_⟩
  rw [translate_pagingInit h s, if_pos]
  rcases pmmAllocPage_spec p with ⟨page, hpage⟩ | ⟨-, hnone⟩
  · have hmax : maxPages.toNat = 32768 := rfl
    have hlt : page.toNat < 32768 := hpage.free.1
    have haddr := toNat_pageAddr (BitVec.le_of_lt hpage.free.1)
    rw [hpage.address]
    bv_omega
  · exact absurd (congrArg Prod.fst hnone) hp

/-- With the arrays behind a kernel at 1 MB, the last byte of the managed memory is mapped to itself
and the byte behind it is not mapped. -/
theorem paging_identity_at : ∃ s : PagingState,
    translate (pagingInit 0x100000#32 0x101000#32 s) 0x7FFFFFF#32 = .mapped 0x7FFFFFF#32 true ∧
      translate (pagingInit 0x100000#32 0x101000#32 s) 0x8000000#32 = .noDirectoryEntry := by
  have hplaced : ArraysPlaced 0x100000#32 0x101000#32 :=
    ⟨by decide, by decide, by decide, by decide, by decide⟩
  obtain ⟨htranslate, -⟩ := paging_identity hplaced ⟨⟨fun _ => 0#8⟩, 0#32, 0#32⟩
  refine ⟨_, (htranslate _).trans ?_, (htranslate _).trans ?_⟩
  · exact if_pos (by decide)
  · exact if_neg (by decide)

end AlderKernel.Mm
