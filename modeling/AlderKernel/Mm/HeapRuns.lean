import AlderKernel.Mm.HeapBytes
import AlderKernel.Mm.MemoryMap

/-!
# The heap over whole runs

From `pmm_init` and `heap_init` on, in any sequence of allocations, frees and writes of the
clients to their own payloads, the block list is in order, covers exactly the pages that the
page allocator has handed out, and has the live allocations as its blocks in use.
-/

namespace AlderKernel.Mm

open Machine Segments

/-- A page that the allocator has handed out since `start` and has not got back. -/
def HandedOut (start now : Pmm) (page : U32) : Prop := start.Free page ∧ ¬ now.Free page

/-- The states that the heap reaches, as the only client of the page allocator, together with the
pointers that are live in them. A client may store to its own payload at any time. -/
inductive Reachable (start : Pmm) : Heap → Set U32 → Prop
  | init {s s' : Heap} (hpmm : s.pmm = start) (hinit : heapInit s = some s') :
      Reachable start s' ∅
  | kmalloc {s s' : Heap} {live : Set U32} {ptr : U32} (h : Reachable start s live) (n : U32)
      (hrun : kmalloc n s = some (ptr, s')) :
      Reachable start s' (if ptr = 0#32 then live else insert ptr live)
  | kfree {s : Heap} {live : Set U32} (h : Reachable start s live) (ptr : U32)
      (hptr : ptr = 0#32 ∨ ptr ∈ live) : Reachable start (kfree ptr s) (live \ {ptr})
  | store {s : Heap} {live : Set U32} (h : Reachable start s live) (ptr : U32) (hptr : ptr ∈ live)
      (i : ℕ) (hi : i < (field s.mem (ptr - headerSize) .size).toNat) (v : U8) :
      Reachable start { s with mem := s.mem.write (ptr + BitVec.ofNat 32 i) v } live

/-- The states that the heap reaches when each call of `kmalloc` and of `kfree` meets a condition on
the heap before it. -/
inductive ReachableWith (start : Pmm) (mayAlloc mayFree : Heap → U32 → Prop) :
    Heap → Set U32 → Prop
  | init {s s' : Heap} (hpmm : s.pmm = start) (hinit : heapInit s = some s') :
      ReachableWith start mayAlloc mayFree s' ∅
  | kmalloc {s s' : Heap} {live : Set U32} {ptr : U32}
      (h : ReachableWith start mayAlloc mayFree s live) (n : U32) (hmay : mayAlloc s n)
      (hrun : kmalloc n s = some (ptr, s')) :
      ReachableWith start mayAlloc mayFree s' (if ptr = 0#32 then live else insert ptr live)
  | kfree {s : Heap} {live : Set U32} (h : ReachableWith start mayAlloc mayFree s live) (ptr : U32)
      (hptr : ptr = 0#32 ∨ ptr ∈ live) (hmay : mayFree s ptr) :
      ReachableWith start mayAlloc mayFree (kfree ptr s) (live \ {ptr})
  | store {s : Heap} {live : Set U32} (h : ReachableWith start mayAlloc mayFree s live) (ptr : U32)
      (hptr : ptr ∈ live) (i : ℕ) (hi : i < (field s.mem (ptr - headerSize) .size).toNat) (v : U8) :
      ReachableWith start mayAlloc mayFree
        { s with mem := s.mem.write (ptr + BitVec.ofNat 32 i) v } live

/-- The list accounts for the pages that were handed out and for the live pointers. -/
structure Accounts (start now : Pmm) (live : Set U32) (l : List Block) : Prop where
  arranged : Arranged l
  freeBefore : ∀ q, now.Free q → start.Free q
  below : ∀ x ∈ occupied l, ∀ q, now.Free q → x < q.toNat * 4096
  covers : ∀ x, x ∈ occupied l ↔ ∃ q, HandedOut start now q ∧ x / 4096 = q.toNat
  live : ∀ ptr, ptr ∈ live ↔ ∃ b ∈ inUse l, b.addr + headerSize = ptr

section

variable {start now now' : Pmm} {live : Set U32} {l pre post : List Block} {b c : Block}
  {first got pages size ptr : U32}

/-- Before the first page is handed out there is no block. -/
theorem accounts_nil (start : Pmm) : Accounts start start ∅ [] where
  arranged := ⟨.nil, by simp, by simp⟩
  freeBefore _ := id
  below x hx := by simp [occupied, covered] at hx
  covers x := by simp [occupied, covered, HandedOut]
  live ptr := by simp [inUse]

/-- The last address of a block is occupied. -/
theorem stop_pred_mem_occupied (hb : b ∈ l) : b.stop - 1 ∈ occupied l := by
  refine ⟨b.segment, List.mem_map_of_mem hb, ?_⟩
  change b.addr.toNat ≤ b.stop - 1 ∧ b.stop - 1 < b.stop
  unfold Block.stop
  omega

/-- Free pages lie above all blocks. -/
theorem Accounts.stop_le (h : Accounts start now live l) (hb : b ∈ l) {q : U32}
    (hq : now.Free q) : b.stop ≤ q.toNat * 4096 := by
  have hlt := h.below _ (stop_pred_mem_occupied hb) q hq
  omega

/-- The pages of a new block are accounted for. -/
theorem Accounts.extend (h : Accounts start now live l) (hpos : ∀ q, start.Free q → q ≠ 0#32)
    (hpages : ObtainsPages now pages first got.toNat now') :
    Accounts start now' live (l ++ [newBlock first got]) := by
  obtain ⟨harr, hoccupied⟩ := arranged_newBlock h.arranged
    (fun q hq => hpos q (h.freeBefore q hq)) (fun _ hb _ hq => h.stop_le hb hq) hpages
  have hrest (q : U32) : now'.Free q ↔ now.Free q ∧
      ¬ (first.toNat ≤ q.toNat ∧ q.toNat < first.toNat + got.toNat) := hpages.run.rest q
  refine ⟨harr, fun q hq => h.freeBefore q ((hrest q).mp hq).1, fun x hx q hq => ?_, fun x => ?_,
    fun ptr => ?_⟩
  · obtain ⟨hfree, hout⟩ := (hrest q).mp hq
    rw [hoccupied] at hx
    rcases hx with hx | ⟨-, hx⟩
    · exact h.below x hx q hfree
    · have hlow : first.toNat ≤ q.toNat := hpages.lowest q hfree
      have hbeyond : first.toNat + got.toNat ≤ q.toNat := by omega
      exact hx.trans_le (Nat.mul_le_mul_right _ hbeyond)
  · rw [hoccupied]
    constructor
    · rintro (hx | ⟨hlo, hhi⟩)
      · obtain ⟨q, ⟨hstart, hnow⟩, hq⟩ := (h.covers x).mp hx
        exact ⟨q, ⟨hstart, fun hfree => hnow ((hrest q).mp hfree).1⟩, hq⟩
      · have hbound := hpages.bound
        have hq : (BitVec.ofNat 32 (x / 4096)).toNat = x / 4096 := by
          rw [BitVec.toNat_ofNat]
          omega
        refine ⟨BitVec.ofNat 32 (x / 4096), ⟨h.freeBefore _ ?_, fun hfree => ?_⟩, hq.symm⟩
        · exact hpages.run.free _ (by omega) (by omega)
        · exact ((hrest _).mp hfree).2 (by omega)
    · rintro ⟨q, ⟨hstart, hnow⟩, hq⟩
      by_cases hfree : now.Free q
      · have hin : first.toNat ≤ q.toNat ∧ q.toNat < first.toNat + got.toNat := by
          by_contra hout
          exact hnow ((hrest q).mpr ⟨hfree, hout⟩)
        exact .inr ⟨by omega, by omega⟩
      · exact .inl ((h.covers x).mpr ⟨q, ⟨hstart, hfree⟩, hq⟩)
  · rw [h.live ptr]
    simp [inUse, newBlock]

/-- Taking a block that fits makes one more pointer live. -/
theorem Accounts.take (h : Accounts start now live (pre ++ b :: post)) (hfits : b.Fits size) :
    Accounts start now (insert (b.addr + headerSize) live) (pre ++ b.carve size ++ post) := by
  obtain ⟨harr, hoccupied⟩ := arranged_carve h.arranged hfits.2
  obtain ⟨n, hcarve⟩ := inUse_carve size b
  refine ⟨harr, h.freeBefore, hoccupied ▸ h.below, hoccupied ▸ h.covers, fun ptr => ?_⟩
  have hnew : inUse (pre ++ b.carve size ++ post) =
      inUse pre ++ ⟨b.addr, n, false⟩ :: inUse post := by
    rw [← List.singleton_append, ← hcarve]
    simp [inUse]
  have hold : inUse (pre ++ b :: post) = inUse pre ++ inUse post := by
    simp [inUse, hfits.1]
  rw [Set.mem_insert_iff, h.live ptr, hnew, hold]
  simp only [List.mem_append, List.mem_cons]
  constructor
  · rintro (rfl | ⟨c, hc, rfl⟩)
    · exact ⟨_, .inr (.inl rfl), rfl⟩
    · exact ⟨c, hc.imp_right .inr, rfl⟩
  · rintro ⟨c, hc | rfl | hc, rfl⟩
    · exact .inr ⟨c, .inl hc, rfl⟩
    · exact .inl rfl
    · exact .inr ⟨c, .inr hc, rfl⟩

/-- Blocks at different places of an arranged list have different addresses. -/
theorem Arranged.addr_ne (h : Arranged (pre ++ b :: post)) (hc : c ∈ pre ∨ c ∈ post) :
    c.addr ≠ b.addr := by
  obtain ⟨hpre, hpost⟩ := h.middle_apart
  have hapart : HeadersApart b.addr c.addr := hc.elim (hpre c) (hpost c)
  intro heq
  unfold HeadersApart Apart at hapart
  rw [heq] at hapart
  bv_omega

/-- Giving a block back makes its pointer dead. -/
theorem Accounts.release (h : Accounts start now live (pre ++ b :: post)) (hb : b.free = false) :
    Accounts start now (live \ {b.addr + headerSize}) (release pre b post) := by
  obtain ⟨harr, hoccupied⟩ := arranged_release h.arranged
  refine ⟨harr, h.freeBefore, hoccupied ▸ h.below, hoccupied ▸ h.covers, fun ptr => ?_⟩
  have hold : inUse (pre ++ b :: post) = inUse pre ++ b :: inUse post := by
    simp [inUse, hb]
  have hother {c : Block} (hc : c ∈ inUse pre ∨ c ∈ inUse post) :
      c.addr + headerSize ≠ b.addr + headerSize := by
    have hmem : c ∈ pre ∨ c ∈ post := hc.imp (fun h => (List.mem_filter.mp h).1)
      fun h => (List.mem_filter.mp h).1
    exact fun heq => h.arranged.addr_ne hmem ((BitVec.add_left_inj headerSize).mp heq)
  rw [Set.mem_sdiff, Set.mem_singleton_iff, h.live ptr, inUse_release, hold]
  simp only [List.mem_append, List.mem_cons]
  constructor
  · rintro ⟨⟨c, hc | rfl | hc, rfl⟩, hne⟩
    · exact ⟨c, .inl hc, rfl⟩
    · exact absurd rfl hne
    · exact ⟨c, .inr hc, rfl⟩
  · rintro ⟨c, hc, rfl⟩
    exact ⟨⟨c, hc.imp_right .inr, rfl⟩, hother hc⟩

end

/-- The heap represents a list that accounts for its pages and its live pointers. -/
structure HeapInv (start : Pmm) (s : Heap) (live : Set U32) (l : List Block) : Prop where
  represents : Represents s l
  accounts : Accounts start s.pmm live l

section

variable {start : Pmm} {s : Heap} {live : Set U32} {l : List Block} {ptr : U32}

/-- A live pointer belongs to a block in use. -/
theorem HeapInv.split_live (h : HeapInv start s live l) (hptr : ptr ∈ live) :
    ∃ pre b post, l = pre ++ b :: post ∧ b.free = false ∧ b.addr + headerSize = ptr := by
  obtain ⟨b, hb, hblock⟩ := (h.accounts.live ptr).mp hptr
  obtain ⟨hmem, hfree⟩ := List.mem_filter.mp hb
  obtain ⟨pre, post, hl⟩ := List.append_of_mem hmem
  exact ⟨pre, b, post, hl, by simpa using hfree, hblock⟩

/-- The pointer to the payload of a block is not null. -/
theorem Arranged.payload_ne_zero {b : Block} (h : Arranged l) (hb : b ∈ l) :
    b.addr + headerSize ≠ 0#32 := by
  have hmax := h.bounded b hb
  unfold Block.stop at hmax
  unfold headerSize
  bv_omega

/-- The null pointer is never live. -/
theorem HeapInv.null_dead (h : HeapInv start s live l) : (0#32 : U32) ∉ live := by
  intro hlive
  obtain ⟨pre, b, post, rfl, -, hzero⟩ := h.split_live hlive
  exact h.accounts.arranged.payload_ne_zero (by simp) hzero

/-- `heap_init` ends, with one block, or with none when there is no free page, and with exact
counters. -/
theorem heapInv_init (hpos : ∀ q, start.Free q → q ≠ 0#32) (hpmm : s.pmm = start) :
    ∃ s' l, heapInit s = some s' ∧ HeapInv start s' ∅ l ∧ Counts s' l 0#32 ∧
      ((∀ q, ¬ start.Free q) ∧ l = [] ∨ ∃ first got, l = [newBlock first got] ∧
        ObtainsPages start heapInitialPages first got.toNat s'.pmm) := by
  subst hpmm
  let empty : Heap := { s with heapHead := 0#32, usedBytes := 0#32, freeBytes := 0#32 }
  have hempty : Represents empty [] := ⟨trivial, rfl⟩
  have haccounts := accounts_nil s.pmm
  have hcounts : Counts empty [] 0#32 := ⟨rfl, rfl⟩
  rcases heapExtend_spec heapInitialPages hempty haccounts.arranged hpos (by simp)
      (by decide) with ⟨hnone, hrun⟩ | ⟨first, got, s', hrun, hpages, hrepresents, hused,
        hcount⟩
  · exact ⟨empty, [], congrArg (Option.map Prod.snd) hrun, ⟨hempty, haccounts⟩, hcounts,
      .inl ⟨hnone, rfl⟩⟩
  · exact ⟨s', [newBlock first got], congrArg (Option.map Prod.snd) hrun,
      ⟨hrepresents, haccounts.extend hpos hpages⟩, hcounts.extend hused hcount rfl,
      .inr ⟨first, got, rfl, hpages⟩⟩

/-- `kmalloc` keeps the blocks in use. -/
theorem KmallocOutcome.inUse_subset {size : U32} {s' : Heap} {l' : List Block} {c : Block}
    (h : KmallocOutcome s l size ptr s' l') (hc : c ∈ inUse l) : c ∈ inUse l' := by
  cases h with
  | found pre b post s' hl hfirst hfits hpmm =>
    subst hl
    have hold : inUse (pre ++ b :: post) = inUse pre ++ inUse post := by
      simp [inUse, hfits.1]
    rw [hold, List.mem_append] at hc
    simp only [inUse, List.filter_append, List.mem_append] at hc ⊢
    exact hc.elim (fun hc => .inl (.inl hc)) .inr
  | grown first got s' hnone hpages hsize =>
    simp only [inUse, List.filter_append, List.mem_append] at hc ⊢
    exact .inl hc
  | tooSmall first got s' hnone hpages hsize =>
    simp only [inUse, List.filter_append, List.mem_append] at hc ⊢
    exact .inl hc
  | noPage hnone hpages => exact hc

/-- What `kmalloc` does keeps the accounts, with the pointer it returns, and the blocks in use. -/
theorem HeapInv.steps (h : HeapInv start s live l) (hpos : ∀ q, start.Free q → q ≠ 0#32)
    {size : U32} {r : U32 × Heap} {l' : List Block} (hsteps : KmallocSteps s l size r l') :
    HeapInv start r.2 (if r.1 = 0#32 then live else insert r.1 live) l' ∧
      ∀ b ∈ inUse l, b ∈ inUse l' := by
  obtain ⟨hrepresents, haccounts⟩ := h
  have hpos' : ∀ q, s.pmm.Free q → q ≠ 0#32 := fun q hq => hpos q (haccounts.freeBefore q hq)
  obtain ⟨hrepresents', houtcome⟩ := hsteps.outcome hrepresents haccounts.arranged hpos'
    fun b hb q hq => haccounts.stop_le hb hq
  obtain ⟨ptr, s'⟩ := r
  dsimp only at hrepresents' houtcome ⊢
  refine ⟨⟨hrepresents', ?_⟩, ?_⟩
  · cases houtcome with
    | found pre b post s' hl hfirst hfits hpmm =>
      subst hl
      rw [if_neg (haccounts.arranged.payload_ne_zero (by simp)), hpmm]
      exact haccounts.take hfits
    | grown first got s' hnone hpages hsize =>
      have hextended := haccounts.extend hpos hpages
      have htaken : Accounts start s'.pmm _ (l ++ (newBlock first got).carve _ ++ []) :=
        hextended.take ⟨rfl, hsize⟩
      rw [if_neg (hextended.arranged.payload_ne_zero (by simp))]
      rwa [List.append_nil] at htaken
    | tooSmall first got s' hnone hpages hsize =>
      rw [if_pos rfl]
      exact haccounts.extend hpos hpages
    | noPage hnone hpages =>
      rw [if_pos rfl]
      exact haccounts
  · exact fun b => houtcome.inUse_subset

/-- `kmalloc` of a nonzero size runs, in one of its four ways. -/
theorem HeapInv.kmalloc_steps (h : HeapInv start s live l) (hpos : ∀ q, start.Free q → q ≠ 0#32)
    {n : U32} (hn : n ≠ 0#32) :
    ∃ r l', kmalloc n s = some r ∧ KmallocSteps s l (alignUp n alignment) r l' := by
  obtain ⟨hrepresents, haccounts⟩ := h
  exact Mm.kmalloc_steps hrepresents haccounts.arranged
    (fun q hq => hpos q (haccounts.freeBefore q hq)) (fun b hb q hq => haccounts.stop_le hb hq) hn

/-- `kmalloc` ends, makes the pointer it returns live, and keeps the blocks in use. -/
theorem HeapInv.kmalloc (h : HeapInv start s live l) (hpos : ∀ q, start.Free q → q ≠ 0#32)
    (n : U32) : ∃ ptr s' l', kmalloc n s = some (ptr, s') ∧
      HeapInv start s' (if ptr = 0#32 then live else insert ptr live) l' ∧
      ∀ b ∈ inUse l, b ∈ inUse l' := by
  by_cases hn : n = 0#32
  · refine ⟨0#32, s, l, if_pos hn, ?_, fun _ => id⟩
    rw [if_pos rfl]
    exact h
  · obtain ⟨⟨ptr, s'⟩, l', hrun, hsteps⟩ := h.kmalloc_steps hpos hn
    exact ⟨ptr, s', l', hrun, h.steps hpos hsteps⟩

/-- `kmalloc` succeeds when a block fits. -/
theorem HeapInv.kmalloc_ne_zero (h : HeapInv start s live l)
    (hpos : ∀ q, start.Free q → q ≠ 0#32) {n : U32} (hn : n ≠ 0#32)
    (hfits : ∃ b ∈ l, b.Fits (alignUp n alignment)) :
    ∃ ptr s', Mm.kmalloc n s = some (ptr, s') ∧ ptr ≠ 0#32 := by
  obtain ⟨r, l', hrun, hsteps⟩ := h.kmalloc_steps hpos hn
  obtain ⟨pre, b, post, rfl, -, rfl, -⟩ := hsteps.of_fits hfits
  exact ⟨_, _, hrun, h.accounts.arranged.payload_ne_zero (by simp)⟩

/-- `kmalloc` gives no live pointer out again. -/
theorem HeapInv.fresh (h : HeapInv start s live l) (hpos : ∀ q, start.Free q → q ≠ 0#32)
    {size : U32} {r : U32 × Heap} {l' : List Block} (hsteps : KmallocSteps s l size r l') :
    r.1 = 0#32 ∨ r.1 ∉ live := by
  have haccounts := h.accounts
  have hother {pre post : List Block} {b : Block} (harr : Arranged (pre ++ b :: post))
      (hmem : ∀ c ∈ inUse l, c ∈ pre ∨ c ∈ post) : b.addr + headerSize ∉ live := by
    intro hlive
    obtain ⟨c, hc, heq⟩ := (haccounts.live _).mp hlive
    exact harr.addr_ne (hmem c hc) ((BitVec.add_left_inj headerSize).mp heq)
  cases hsteps with
  | found pre b post hl hfirst hfits =>
    subst hl
    refine .inr (hother haccounts.arranged fun c hc => ?_)
    simp only [inUse, List.filter_append, List.filter_cons, hfits.1, Bool.not_true,
      Bool.false_eq_true, if_false, List.mem_append] at hc
    exact hc.imp (fun h => (List.mem_filter.mp h).1) fun h => (List.mem_filter.mp h).1
  | grown first got s' hnone hpages hrepresents hused hcount hsize =>
    have harr := (haccounts.extend hpos hpages).arranged
    exact .inr (hother harr fun c hc => .inl (List.mem_filter.mp hc).1)
  | tooSmall => exact .inl rfl
  | noPage => exact .inl rfl

/-- A request that fits into one page gets a pointer that was not live, or the heap stays as it
is. -/
theorem HeapInv.kmalloc_page (h : HeapInv start s live l)
    (hpos : ∀ q, start.Free q → q ≠ 0#32) {n : U32} (hn : n ≠ 0#32)
    (hsize : (alignUp n alignment).toNat ≤ 4080) :
    Mm.kmalloc n s = some (0#32, s) ∨ ∃ ptr s' l', Mm.kmalloc n s = some (ptr, s') ∧
      ptr ≠ 0#32 ∧ ptr ∉ live ∧ HeapInv start s' (insert ptr live) l' := by
  obtain ⟨r, l', hrun, hsteps⟩ := h.kmalloc_steps hpos hn
  have hinv := (h.steps hpos hsteps).1
  have hfresh := h.fresh hpos hsteps
  by_cases hzero : r.1 = 0#32
  · left
    cases hsteps with
    | found pre b post hl =>
      subst hl
      exact absurd hzero (h.accounts.arranged.payload_ne_zero (by simp))
    | grown first got s' hnone hpages =>
      have harr := (h.accounts.extend hpos hpages).arranged
      exact absurd hzero (harr.payload_ne_zero (b := newBlock first got) (by simp))
    | tooSmall first got s' hnone hpages hrepresents hused hcount hsmall =>
      have hpayload := size_newBlock hpages
      have hgot := hpages.pos
      exact absurd hsmall (by bv_omega)
    | noPage => exact hrun
  · rw [if_neg hzero] at hinv
    exact .inr ⟨r.1, r.2, l', hrun, hzero, hfresh.resolve_left hzero, hinv⟩

/-- Without a block that fits and without a free page `kmalloc` fails. -/
theorem HeapInv.kmalloc_null (h : HeapInv start s live l)
    (hpos : ∀ q, start.Free q → q ≠ 0#32) {n : U32} (hn : n ≠ 0#32)
    (hfits : ∀ b ∈ l, ¬ b.Fits (alignUp n alignment)) (hpages : ∀ q, ¬ s.pmm.Free q) :
    Mm.kmalloc n s = some (0#32, s) := by
  obtain ⟨r, l', hrun, hsteps⟩ := h.kmalloc_steps hpos hn
  have hnever {first got pages : U32} {p : Pmm} (h : ObtainsPages s.pmm pages first got.toNat p) :
      False := hpages first (h.run.free first le_rfl (Nat.lt_add_of_pos_right h.pos))
  cases hsteps with
  | found pre b post hl hfirst hb => exact absurd hb (hfits b (by simp [hl]))
  | grown first got s' hnone hobtains => exact (hnever hobtains).elim
  | tooSmall first got s' hnone hobtains => exact (hnever hobtains).elim
  | noPage => exact hrun

/-- The heap serves `k` requests of `n` bytes one after the other. -/
def Serves (n : U32) : ℕ → Heap → Prop
  | 0, _ => True
  | k + 1, s => ∃ ptr s', Mm.kmalloc n s = some (ptr, s') ∧ ptr ≠ 0#32 ∧ Serves n k s'

/-- A free block serves as many requests as have room in it, each with its header. -/
theorem HeapInv.serves (h : HeapInv start s live l) (hpos : ∀ q, start.Free q → q ≠ 0#32)
    {n : U32} (hn : n ≠ 0#32) (k : ℕ)
    (hroom : ∃ b ∈ l, b.free = true ∧ ((alignUp n alignment).toNat + 16) * k ≤ b.size.toNat) :
    Serves n k s := by
  induction k generalizing s live l with
  | zero => trivial
  | succ k ih =>
    obtain ⟨b, hb, hfree, hsize⟩ := hroom
    rw [Nat.mul_succ] at hsize
    have hfits : b.Fits (alignUp n alignment) := ⟨hfree, by bv_omega⟩
    obtain ⟨r, l', hrun, hsteps⟩ := h.kmalloc_steps hpos hn
    have hinv := (h.steps hpos hsteps).1
    obtain ⟨pre, c, post, rfl, -, rfl, rfl⟩ := hsteps.of_fits ⟨b, hb, hfits⟩
    refine ⟨_, _, hrun, h.accounts.arranged.payload_ne_zero (by simp), ?_⟩
    cases k with
    | zero => trivial
    | succ k =>
      refine ih hinv ?_
      rw [Nat.mul_succ] at hsize ⊢
      by_cases hbc : b = c
      · subst hbc
        have hmax := h.accounts.arranged.bounded b (by simp)
        unfold Block.stop at hmax
        -- The block is big enough to leave a rest for the other requests.
        have hsplit : alignUp n alignment + 32#32 ≤ b.size := by bv_omega
        refine ⟨b.leftover (alignUp n alignment), ?_, rfl, ?_⟩
        · simp [Block.carve, hsplit]
        · change _ ≤ (b.size - alignUp n alignment - 16#32).toNat
          bv_omega
      · refine ⟨b, ?_, hfree, by omega⟩
        simp only [List.mem_append, List.mem_cons, hbc, false_or] at hb ⊢
        exact hb.imp_left .inl

/-- `kfree` of a block in use makes its pointer dead. -/
theorem HeapInv.release {pre post : List Block} {b : Block}
    (h : HeapInv start s live (pre ++ b :: post)) (hb : b.free = false) :
    HeapInv start (Mm.kfree (b.addr + headerSize) s) (live \ {b.addr + headerSize})
      (Mm.release pre b post) := by
  obtain ⟨hrepresents, hpmm⟩ := kfree_spec h.represents h.accounts.arranged
  refine ⟨hrepresents, ?_⟩
  rw [hpmm]
  exact h.accounts.release hb

/-- `kfree` of a live pointer makes it dead and keeps the other blocks in use. -/
theorem HeapInv.kfree (h : HeapInv start s live l) (hptr : ptr ∈ live) :
    ∃ l', HeapInv start (kfree ptr s) (live \ {ptr}) l' ∧
      ∀ b ∈ inUse l, b.addr + headerSize ≠ ptr → b ∈ inUse l' := by
  obtain ⟨pre, b, post, rfl, hb, rfl⟩ := h.split_live hptr
  refine ⟨Mm.release pre b post, h.release hb, fun c hc hne => ?_⟩
  · rw [inUse_release]
    simp only [inUse, List.filter_append, List.filter_cons, hb, Bool.not_false, if_true,
      List.mem_append, List.mem_cons] at hc ⊢
    rcases hc with hc | rfl | hc
    · exact .inl hc
    · exact absurd rfl hne
    · exact .inr hc

/-- A client that stores to its own payload touches no header. -/
theorem HeapInv.store (h : HeapInv start s live l) (hptr : ptr ∈ live) {i : ℕ}
    (hi : i < (field s.mem (ptr - headerSize) .size).toNat) (v : U8) :
    HeapInv start { s with mem := s.mem.write (ptr + BitVec.ofNat 32 i) v } live l := by
  obtain ⟨pre, b, post, rfl, hb, rfl⟩ := h.split_live hptr
  have hblock : b.addr + headerSize - headerSize = b.addr := BitVec.add_sub_cancel _ _
  rw [hblock, (linked_middle.mp h.represents.linked).2.1.size] at hi
  have harr := h.accounts.arranged
  have hasc := List.pairwise_map.mp harr.ascending
  rw [List.pairwise_append, List.pairwise_cons] at hasc
  have hmax := harr.bounded b (by simp)
  unfold Block.stop at hmax
  have haddr : (b.addr + headerSize + BitVec.ofNat 32 i).toNat = b.addr.toNat + 16 + i := by
    unfold headerSize
    bv_omega
  refine ⟨⟨h.represents.linked.congr fun c hc f => ?_, h.represents.head⟩, h.accounts⟩
  refine Memory.load32_write_of_not_within ?_
  have hoffset := f.offset_le
  have hcmax := harr.bounded c hc
  have hsep : c.stop ≤ b.addr.toNat ∨ c = b ∨ b.stop ≤ c.addr.toNat := by
    rcases List.mem_append.mp hc with hc | hc
    · exact .inl (hasc.2.2 c hc b (.head _))
    · rcases List.mem_cons.mp hc with hc | hc
      · exact .inr (.inl hc)
      · exact .inr (.inr (hasc.2.1.1 c hc))
  unfold Within
  unfold Block.stop at hsep hcmax
  rcases hsep with hsep | rfl | hsep
  · bv_omega
  · bv_omega
  · bv_omega

/-- Memory links at most one list without null addresses from a given first block on. -/
theorem Linked.unique {m : Memory} {prev prev' : U32} {l l' : List Block}
    (h : Linked m prev l 0#32) (h' : Linked m prev' l' 0#32)
    (hne : ∀ b ∈ l, b.addr ≠ 0#32) (hne' : ∀ b ∈ l', b.addr ≠ 0#32)
    (hfirst : firstAddr l 0#32 = firstAddr l' 0#32) : l = l' := by
  induction l generalizing l' prev prev' with
  | nil =>
    cases l' with
    | nil => rfl
    | cons b' l' => exact absurd hfirst.symm (hne' b' (.head _))
  | cons b l ih =>
    cases l' with
    | nil => exact absurd hfirst (hne b (.head _))
    | cons b' l' =>
      have haddr : b.addr = b'.addr := hfirst
      obtain ⟨⟨hsize, hfree, hnext, -⟩, hl⟩ := h
      obtain ⟨⟨hsize', hfree', hnext', -⟩, hl'⟩ := h'
      rw [haddr] at hsize hfree hnext
      have hrest := ih hl hl' (fun c hc => hne c (.tail _ hc)) (fun c hc => hne' c (.tail _ hc))
        (hnext.symm.trans hnext')
      have hflag : b.free = b'.free := by
        have hsame := hfree.symm.trans hfree'
        cases hb : b.free <;> cases hb' : b'.free <;> simp [hb, hb'] at hsame ⊢
      have hblock : b = b' := by
        have hlength : b.size = b'.size := hsize.symm.trans hsize'
        obtain ⟨addr, size, free⟩ := b
        obtain ⟨addr', size', free'⟩ := b'
        obtain rfl : addr = addr' := haddr
        obtain rfl : size = size' := hlength
        obtain rfl : free = free' := hflag
        rfl
      rw [hblock, hrest]

/-- A heap has at most one arranged block list. -/
theorem Represents.unique {l' : List Block} (h : Represents s l) (h' : Represents s l')
    (harr : Arranged l) (harr' : Arranged l') : l = l' :=
  h.linked.unique h'.linked (fun _ hb => harr.addr_ne_zero hb) (fun _ hb => harr'.addr_ne_zero hb)
    (h.head.symm.trans h'.head)

/-- An invariant of the heap, with its list, that each kind of call keeps where it is allowed, holds
in every state that the allowed calls reach. -/
theorem ReachableWith.invariant {mayAlloc mayFree : Heap → U32 → Prop}
    {P : Heap → List Block → Prop} (h : ReachableWith start mayAlloc mayFree s live)
    (hpos : ∀ q, start.Free q → q ≠ 0#32)
    (hinit : ∀ s l, HeapInv start s ∅ l → Counts s l 0#32 →
      (l = [] ∨ ∃ first got, l = [newBlock first got]) → P s l)
    (hkmalloc : ∀ {s live l n r l'}, HeapInv start s live l → P s l → mayAlloc s n → n ≠ 0#32 →
      Mm.kmalloc n s = some r → KmallocSteps s l (alignUp n alignment) r l' → P r.2 l')
    (hkfree : ∀ {s live pre b post}, HeapInv start s live (pre ++ b :: post) →
      P s (pre ++ b :: post) → mayFree s (b.addr + headerSize) → b.free = false →
      P (Mm.kfree (b.addr + headerSize) s) (release pre b post))
    (hstore : ∀ {s l} m, P s l → P { s with mem := m } l) :
    ∃ l, HeapInv start s live l ∧ P s l := by
  induction h with
  | init hpmm hrun =>
    obtain ⟨s', l, hrun', hinv, hcounts, hlist⟩ := heapInv_init hpos hpmm
    rw [hrun] at hrun'
    obtain rfl := Option.some.inj hrun'
    refine ⟨l, hinv, hinit _ l hinv hcounts (hlist.imp And.right ?_)⟩
    rintro ⟨first, got, hl, -⟩
    exact ⟨first, got, hl⟩
  | @kmalloc s s' live ptr _ n hmay hrun ih =>
    obtain ⟨l, hinv, hP⟩ := ih
    by_cases hn : n = 0#32
    · have hnull : Mm.kmalloc n s = some (0#32, s) := if_pos hn
      obtain ⟨rfl, rfl⟩ := Prod.mk.inj (Option.some.inj (hrun.symm.trans hnull))
      rw [if_pos rfl]
      exact ⟨l, hinv, hP⟩
    · obtain ⟨r, l', hrun', hsteps⟩ := hinv.kmalloc_steps hpos hn
      obtain rfl := Option.some.inj (hrun'.symm.trans hrun)
      exact ⟨l', (hinv.steps hpos hsteps).1, hkmalloc hinv hP hmay hn hrun hsteps⟩
  | @kfree s live _ ptr hptr hmay ih =>
    obtain ⟨l, hinv, hP⟩ := ih
    rcases hptr with rfl | hptr
    · rw [Set.sdiff_singleton_eq_self hinv.null_dead]
      exact ⟨l, hinv, hP⟩
    · obtain ⟨pre, b, post, rfl, hb, rfl⟩ := hinv.split_live hptr
      exact ⟨release pre b post, hinv.release hb, hkfree hinv hP hmay hb⟩
  | store _ ptr hptr i hi v ih =>
    obtain ⟨l, hinv, hP⟩ := ih
    exact ⟨l, hinv.store hptr hi v, hstore _ hP⟩

/-- Every reachable heap represents a list that accounts for it. -/
theorem Reachable.heapInv (h : Reachable start s live) (hpos : ∀ q, start.Free q → q ≠ 0#32) :
    ∃ l, HeapInv start s live l := by
  induction h with
  | init hpmm hinit =>
    obtain ⟨s', l, hrun, hinv, -⟩ := heapInv_init hpos hpmm
    rw [hinit] at hrun
    obtain rfl := Option.some.inj hrun
    exact ⟨l, hinv⟩
  | kmalloc _ n hrun ih =>
    obtain ⟨l, hinv⟩ := ih
    obtain ⟨ptr, s', l', hrun', hinv', -⟩ := hinv.kmalloc hpos n
    rw [hrun] at hrun'
    obtain ⟨rfl, rfl⟩ := Prod.mk.inj (Option.some.inj hrun')
    exact ⟨l', hinv'⟩
  | @kfree s live _ ptr hptr ih =>
    obtain ⟨l, hinv⟩ := ih
    rcases hptr with rfl | hptr
    · rw [Set.sdiff_singleton_eq_self hinv.null_dead]
      exact ⟨l, hinv⟩
    · obtain ⟨l', hinv', -⟩ := hinv.kfree hptr
      exact ⟨l', hinv'⟩
  | store _ ptr hptr i hi v ih =>
    obtain ⟨l, hinv⟩ := ih
    exact ⟨l, hinv.store hptr hi v⟩

end

/-- The addresses of a block's payload. -/
def Block.payload (b : Block) : Set ℕ := Set.Ico (b.addr.toNat + 16) b.stop

/-- The addresses of a block's header. -/
def Block.header (b : Block) : Set ℕ := Set.Ico b.addr.toNat (b.addr.toNat + 16)

/-- The block list of a heap as its clients rely on it. -/
structure WellFormed (start : Pmm) (s : Heap) (live : Set U32) (l : List Block) : Prop where
  represents : Represents s l
  nonNull : ∀ b ∈ l, b.addr ≠ 0#32
  increasing : l.Pairwise fun b c => b.addr < c.addr
  disjoint : l.Pairwise fun b c => Disjoint b.segment.points c.segment.points
  covers : ∀ x, (∃ b ∈ l, x ∈ b.segment.points) ↔
    ∃ q, HandedOut start s.pmm q ∧ x / 4096 = q.toNat
  live : ∀ ptr, ptr ∈ live ↔ ∃ b ∈ l, b.free = false ∧ b.addr + headerSize = ptr
  payloads : ∀ b ∈ l, ∀ c ∈ l, (c ≠ b → Disjoint b.payload c.payload) ∧
    Disjoint b.payload c.header

section

variable {start : Pmm} {s : Heap} {live : Set U32} {l : List Block}

/-- Payload and header are parts of the block. -/
theorem Block.payload_subset (b : Block) :
    b.payload ⊆ b.segment.points ∧ b.header ⊆ b.segment.points := by
  constructor
  · rintro x ⟨hlo, hhi⟩
    exact ⟨Nat.le_of_add_right_le hlo, hhi⟩
  · rintro x ⟨hlo, hhi⟩
    exact ⟨hlo, hhi.trans_le (Nat.le_add_right _ _)⟩

/-- The blocks of an arranged list are pairwise disjoint. -/
theorem Arranged.disjoint (h : Arranged l) :
    l.Pairwise fun b c => Disjoint b.segment.points c.segment.points := by
  simpa only [List.pairwise_map] using h.ascending.disjoint

/-- Different blocks of an arranged list are disjoint. -/
theorem Arranged.disjoint_of_ne {b c : Block} (h : Arranged l) (hb : b ∈ l) (hc : c ∈ l)
    (hne : c ≠ b) : Disjoint b.segment.points c.segment.points := by
  have hsymm : Std.Symm fun b c : Block => Disjoint b.segment.points c.segment.points :=
    ⟨fun _ _ hdisjoint => hdisjoint.symm⟩
  exact h.disjoint.forall hb hc hne.symm

/-- A heap with the invariant is well formed. -/
theorem HeapInv.wellFormed (h : HeapInv start s live l) : WellFormed start s live l := by
  have harr := h.accounts.arranged
  refine ⟨h.represents, fun b hb => harr.addr_ne_zero hb, ?_, harr.disjoint, fun x => ?_,
    fun ptr => ?_, fun b hb c hc => ?_⟩
  · refine (List.pairwise_map.mp harr.ascending).imp fun {b c} hle => ?_
    change b.stop ≤ c.addr.toNat at hle
    unfold Block.stop at hle
    bv_omega
  · rw [← h.accounts.covers x]
    simp [occupied, covered]
  · rw [h.accounts.live ptr]
    simp [inUse, and_assoc]
  · constructor
    · intro hne
      exact (harr.disjoint_of_ne hb hc hne).mono b.payload_subset.1 c.payload_subset.1
    · by_cases hcb : c = b
      · subst hcb
        exact Set.disjoint_left.mpr fun x hx hx' => absurd hx.1 (Nat.not_le.mpr hx'.2)
      · exact (harr.disjoint_of_ne hb hc hcb).mono b.payload_subset.1 c.payload_subset.2

/-- A heap has at most one block list. -/
theorem WellFormed.unique {l' : List Block} (h : WellFormed start s live l)
    (h' : WellFormed start s live l') : l = l' :=
  h.represents.linked.unique h'.represents.linked h.nonNull h'.nonNull
    (h.represents.head.symm.trans h'.represents.head)

/-- Freeing the null pointer does nothing. -/
theorem kfree_null (s : Heap) : kfree 0#32 s = s := if_pos rfl

/-- After `pmm_init` the page at address 0 is not free. -/
theorem free_ne_zero {m : Memory} {kernelEnd multibootInfoAddr : U32} {turns : ℕ} {boot : Pmm}
    (hinit : pmmInit m kernelEnd turns multibootInfoAddr boot = some start) (q : U32)
    (hq : start.Free q) : q ≠ 0#32 := by
  have hlt := pmmInit_free hinit hq
  rintro rfl
  bv_omega

/-- The heap over whole runs. After `pmm_init` on a memory map whose walk ends, `heap_init` returns.
In every state that the heap reaches from there its block list is well formed, `kmalloc` and `kfree`
return, the list is well formed after them, and the blocks that stay live are still in it, with
the same address and size. -/
theorem heap_wellFormed {m : Memory} {kernelEnd multibootInfoAddr : U32} {turns : ℕ} {boot : Pmm}
    (hinit : pmmInit m kernelEnd turns multibootInfoAddr boot = some start) :
    (∀ s₀ : Heap, s₀.pmm = start → ∃ s₁, heapInit s₀ = some s₁) ∧
    ∀ s live, Reachable start s live → ∃ l, WellFormed start s live l ∧
      (∀ n, ∃ ptr s' l', kmalloc n s = some (ptr, s') ∧
        WellFormed start s' (if ptr = 0#32 then live else insert ptr live) l' ∧
        ∀ b ∈ l, b.free = false → b ∈ l') ∧
      ∀ ptr, ptr = 0#32 ∨ ptr ∈ live → ∃ l', WellFormed start (kfree ptr s) (live \ {ptr}) l' ∧
        ∀ b ∈ l, b.free = false → b.addr + headerSize ≠ ptr → b ∈ l' := by
  have hpos := free_ne_zero hinit
  have hmem {l : List Block} {b : Block} : b ∈ inUse l ↔ b ∈ l ∧ b.free = false := by
    simp [inUse]
  refine ⟨fun s₀ hs₀ => ?_, fun s live hreach => ?_⟩
  · obtain ⟨s₁, l, hrun, -⟩ := heapInv_init hpos hs₀
    exact ⟨s₁, hrun⟩
  obtain ⟨l, hinv⟩ := hreach.heapInv hpos
  refine ⟨l, hinv.wellFormed, fun n => ?_, fun ptr hptr => ?_⟩
  · obtain ⟨ptr, s', l', hrun, hinv', hkept⟩ := hinv.kmalloc hpos n
    exact ⟨ptr, s', l', hrun, hinv'.wellFormed,
      fun b hb hfree => (hmem.mp (hkept b (hmem.mpr ⟨hb, hfree⟩))).1⟩
  · rcases hptr with rfl | hptr
    · rw [Set.sdiff_singleton_eq_self hinv.null_dead, kfree_null]
      exact ⟨l, hinv.wellFormed, fun b hb _ _ => hb⟩
    · obtain ⟨l', hinv', hkept⟩ := hinv.kfree hptr
      exact ⟨l', hinv'.wellFormed,
        fun b hb hfree hne => (hmem.mp (hkept b (hmem.mpr ⟨hb, hfree⟩) hne)).1⟩

/-- `heap_init` after the boot with one region makes one block. -/
theorem heapInit_oneRegion : ∃ start s first got,
    pmmInit oneRegion 0x180000#32 2 0x1000#32 ⟨fun _ => 0#8, 0#32⟩ = some start ∧
      heapInit ⟨oneRegion, start, 0#32, 0#32, 0#32⟩ = some s ∧
      HeapInv start s ∅ [newBlock first got] ∧ Counts s [newBlock first got] 0#32 ∧
      ObtainsPages start heapInitialPages first got.toNat s.pmm := by
  obtain ⟨start, hinit, hfree⟩ := pmmInit_oneRegion
  obtain ⟨s, l, hrun, hinv, hcounts, ⟨hnone, -⟩ | ⟨first, got, rfl, hpages⟩⟩ :=
    heapInv_init (s := ⟨oneRegion, start, 0#32, 0#32, 0#32⟩) (free_ne_zero hinit) rfl
  · exact absurd hfree (hnone _)
  · exact ⟨start, s, first, got, hinit, hrun, hinv, hcounts, hpages⟩

/-- The pages of that block. -/
theorem obtains_oneRegion {start p : Pmm} {first got : U32}
    (hinit : pmmInit oneRegion 0x180000#32 2 0x1000#32 ⟨fun _ => 0#8, 0#32⟩ = some start)
    (hpages : ObtainsPages start heapInitialPages first got.toNat p) :
    first.toNat = 385 ∧ got.toNat = 16 ∧ ∀ q, p.Free q ↔ 401 ≤ q.toNat ∧ q.toNat < 512 := by
  have hfree (q : U32) : start.Free q ↔ 385 ≤ q.toNat ∧ q.toNat < 512 := free_oneRegion hinit
  have hpos := hpages.pos
  have hturns := hpages.run.le_turns
  have htotal : heapInitialPages.toNat = 16 := rfl
  have hfirst : first.toNat = 385 := by
    have hlow := (hfree first).mp (hpages.run.free first le_rfl (Nat.lt_add_of_pos_right hpos))
    have hle : first ≤ 385#32 := hpages.lowest _ ((hfree _).mpr (by decide))
    bv_omega
  have hgot : got.toNat = 16 := by
    by_contra hlt
    have hpage : (BitVec.ofNat 32 (first.toNat + got.toNat)).toNat = first.toNat + got.toNat := by
      rw [BitVec.toNat_ofNat]
      omega
    exact hpages.run.stops (by omega) _ hpage ((hfree _).mpr (by omega))
  refine ⟨hfirst, hgot, fun q => ?_⟩
  rw [hpages.run.rest, hfree]
  omega

/-- That block has room for 100 bytes. -/
theorem fits_oneRegion {start p : Pmm} {first got : U32}
    (hpages : ObtainsPages start heapInitialPages first got.toNat p) :
    (newBlock first got).Fits (alignUp 100#32 alignment) := by
  have hsize := size_newBlock hpages
  have hgot := hpages.pos
  have halign : (alignUp 100#32 alignment).toNat = 104 := by decide
  exact ⟨rfl, by bv_omega⟩

/-- After that boot 100 bytes are allocated. -/
theorem kmalloc_oneRegion : ∃ start s ptr s',
    pmmInit oneRegion 0x180000#32 2 0x1000#32 ⟨fun _ => 0#8, 0#32⟩ = some start ∧
      heapInit ⟨oneRegion, start, 0#32, 0#32, 0#32⟩ = some s ∧
      Mm.kmalloc 100#32 s = some (ptr, s') ∧ ptr ≠ 0#32 := by
  obtain ⟨start, s, first, got, hinit, hrun, hinv, -, hpages⟩ := heapInit_oneRegion
  obtain ⟨ptr, s', hrun', hptr⟩ := hinv.kmalloc_ne_zero (free_ne_zero hinit) (by decide)
    ⟨_, List.mem_singleton_self _, fits_oneRegion hpages⟩
  exact ⟨start, s, ptr, s', hinit, hrun, hrun', hptr⟩

/-- After that boot two allocations of 100 bytes get different pointers. -/
theorem kmallocTwice_oneRegion : ∃ start s ptr s' ptr' s'',
    pmmInit oneRegion 0x180000#32 2 0x1000#32 ⟨fun _ => 0#8, 0#32⟩ = some start ∧
      heapInit ⟨oneRegion, start, 0#32, 0#32, 0#32⟩ = some s ∧
      Mm.kmalloc 100#32 s = some (ptr, s') ∧ ptr ≠ 0#32 ∧
      Mm.kmalloc 100#32 s' = some (ptr', s'') ∧ ptr' ≠ 0#32 ∧ ptr' ≠ ptr := by
  obtain ⟨start, s, first, got, hinit, hrun, hinv, -, hpages⟩ := heapInit_oneRegion
  have hpos := free_ne_zero hinit
  have halign : (alignUp 100#32 alignment).toNat = 104 := by decide
  have hroom : ((alignUp 100#32 alignment).toNat + 16) * 2 ≤ (newBlock first got).size.toNat := by
    have hsize := size_newBlock hpages
    have hgot := hpages.pos
    omega
  obtain ⟨ptr, s', hrun', hptr, ptr', s'', hrun'', hptr', -⟩ := hinv.serves hpos
    (n := 100#32) (by decide) 2 ⟨_, List.mem_singleton_self _, rfl, hroom⟩
  refine ⟨start, s, ptr, s', ptr', s'', hinit, hrun, hrun', hptr, hrun'', hptr', ?_⟩
  obtain ⟨_, _, l', hrun, hinv', -⟩ := hinv.kmalloc hpos 100#32
  obtain ⟨rfl, rfl⟩ := Prod.mk.inj (Option.some.inj (hrun'.symm.trans hrun))
  obtain ⟨r, l'', hrun, hsteps⟩ := hinv'.kmalloc_steps hpos (n := 100#32) (by decide)
  obtain rfl := Option.some.inj (hrun''.symm.trans hrun)
  rw [if_neg hptr] at hinv'
  exact fun heq => (hinv'.fresh hpos hsteps).resolve_left hptr' (heq ▸ Set.mem_insert _ _)

/-- After that boot the heap reaches a state with a live allocation, and is well formed there. -/
theorem oneRegion_heap : ∃ start s ptr,
    pmmInit oneRegion 0x180000#32 2 0x1000#32 ⟨fun _ => 0#8, 0#32⟩ = some start ∧
      Reachable start s {ptr} ∧ ptr ≠ 0#32 ∧ ∃ l, WellFormed start s {ptr} l := by
  obtain ⟨start, s, ptr, s', hinit, hrun, hrun', hptr⟩ := kmalloc_oneRegion
  have hreach : Reachable start s' {ptr} := by
    simpa [hptr] using (Reachable.init rfl hrun).kmalloc 100#32 hrun'
  obtain ⟨l, hwell, -⟩ := (heap_wellFormed hinit).2 s' {ptr} hreach
  exact ⟨start, s', ptr, hinit, hreach, hptr, l, hwell⟩

end

end AlderKernel.Mm
