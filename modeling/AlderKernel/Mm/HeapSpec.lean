import AlderKernel.Mm.HeapPages
import AlderKernel.Mm.Links

/-!
# What `kmalloc` and `kfree` do to the block list

Each operation of `heap.c` on a heap that represents an arranged list ends, and leaves a heap
that represents the list given by the operation on lists.
-/

namespace AlderKernel.Mm

open Machine

section

variable {m : Memory} {l pre post : List Block} {a b c : Block} {prev next size : U32}

/-- Blocks of an arranged list have nonzero addresses. -/
theorem Arranged.addr_ne_zero (h : Arranged l) (hb : b ∈ l) : b.addr ≠ 0#32 := by
  have hpos := h.positive b hb
  bv_omega

/-- The blocks behind the first one are arranged, and lie behind it. -/
theorem Arranged.tail (h : Arranged (b :: l)) : Arranged l ∧ ∀ c ∈ l, b.stop ≤ c.addr.toNat := by
  have hasc := List.pairwise_cons.mp (List.pairwise_map.mp h.ascending)
  exact ⟨⟨List.pairwise_map.mpr hasc.2, fun c hc => h.positive c (.tail _ hc),
    fun c hc => h.bounded c (.tail _ hc)⟩, fun c hc => hasc.1 c hc⟩

/-- An arranged list is short. -/
theorem Arranged.length_lt (h : Arranged l) : l.length < 2 ^ 32 - 1 := by
  have hgen (lo : ℕ) (hlo : ∀ b ∈ l, lo ≤ b.addr.toNat) :
      l = [] ∨ lo + 16 * l.length ≤ 2 ^ 27 := by
    induction l generalizing lo with
    | nil => exact .inl rfl
    | cons b l ih =>
      obtain ⟨htail, hbehind⟩ := h.tail
      have hb := hlo b (.head _)
      have hmax := h.bounded b (.head _)
      rcases ih htail b.stop hbehind with rfl | hle
      · refine .inr ?_
        simp only [List.length_cons, List.length_nil]
        unfold Block.stop at hmax
        omega
      · refine .inr ?_
        simp only [List.length_cons]
        unfold Block.stop at hle
        omega
  rcases hgen 0 fun _ _ => Nat.zero_le _ with rfl | hle
  · decide
  · omega

/-- The search of `kmalloc` finds the first block that fits. -/
theorem firstFit_spec (size : U32) (turns : ℕ) (h : Linked m prev l 0#32)
    (hne : ∀ b ∈ l, b.addr ≠ 0#32) (hturns : l.length < turns) :
    firstFit m size turns (firstAddr l 0#32) =
      some ((l.find? fun b => b.Fits size).elim 0#32 Block.addr) := by
  induction l generalizing prev turns with
  | nil =>
    cases turns with
    | zero => exact absurd hturns (Nat.not_lt_zero _)
    | succ turns => exact if_pos rfl
  | cons b l ih =>
    cases turns with
    | zero => exact absurd hturns (Nat.not_lt_zero _)
    | succ turns =>
      obtain ⟨hb, hl⟩ := h
      have hfits : (field m b.addr .free ≠ 0#32 ∧ size ≤ field m b.addr .size) ↔
          b.Fits size := by
        rw [hb.free, hb.size, Block.Fits]
        cases b.free <;> simp
      have hrest := ih turns hl (fun c hc => hne c (.tail _ hc)) (Nat.lt_of_succ_lt_succ hturns)
      change (if b.addr = 0#32 then some 0#32 else
        if field m b.addr .free ≠ 0#32 ∧ size ≤ field m b.addr .size then some b.addr else
          firstFit m size turns (field m b.addr .next)) = _
      rw [if_neg (hne b (.head _)), hb.next, List.find?_cons]
      by_cases hb' : b.Fits size
      · rw [if_pos (hfits.mpr hb')]
        simp [hb']
      · rw [if_neg (mt hfits.mp hb'), hrest]
        simp [hb']

/-- The walk of `heap_extend` ends at the last block. -/
theorem lastBlock_spec (turns : ℕ) (h : Linked m prev (b :: l) 0#32)
    (hne : ∀ c ∈ l, c.addr ≠ 0#32) (hturns : l.length < turns) :
    lastBlock m turns b.addr = some (lastAddr b.addr l) := by
  induction l generalizing prev turns b with
  | nil =>
    cases turns with
    | zero => exact absurd hturns (Nat.not_lt_zero _)
    | succ turns => exact if_neg (not_not.mpr h.1.next)
  | cons c l ih =>
    cases turns with
    | zero => exact absurd hturns (Nat.not_lt_zero _)
    | succ turns =>
      have hnext : field m b.addr .next = c.addr := h.1.next
      have hc : c.addr ≠ 0#32 := hne c (.head _)
      unfold lastBlock
      rw [hnext, if_pos hc]
      exact ih turns h.2 (fun d hd => hne d (.tail _ hd)) (Nat.lt_of_succ_lt_succ hturns)

/-- The last block of a nonempty list. -/
theorem lastAddr_concat : lastAddr prev (pre ++ [a]) = a.addr := by
  induction pre generalizing prev with
  | nil => rfl
  | cons b pre ih => exact ih

/-- The walk of `heap_extend` over a nonempty list starts at a block and ends at the last one. -/
theorem lastBlock_concat (h : Linked m prev (pre ++ [a]) 0#32) (harr : Arranged (pre ++ [a])) :
    firstAddr (pre ++ [a]) 0#32 ≠ 0#32 ∧
      lastBlock m (2 ^ 32) (firstAddr (pre ++ [a]) 0#32) = some a.addr := by
  have hlength := harr.length_lt
  cases pre with
  | nil => exact ⟨harr.addr_ne_zero (.head _), lastBlock_spec _ h (by simp) (by simp)⟩
  | cons b pre =>
    rw [List.cons_append] at *
    have hwalk := lastBlock_spec (2 ^ 32) h (fun c hc => harr.addr_ne_zero (.tail _ hc))
      (by simp at hlength ⊢; omega)
    rw [lastAddr_concat] at hwalk
    exact ⟨harr.addr_ne_zero (.head _), hwalk⟩

/-- The end of a block, computed in 32 bits, is the next header exactly when the blocks meet. -/
theorem meets_iff (hb : b.stop ≤ 2 ^ 27) :
    b.addr + headerSize + b.size = c.addr ↔ b.stop = c.addr.toNat := by
  unfold Block.stop at *
  unfold headerSize
  bv_omega

/-- Joining two neighbours, if they meet. -/
theorem Linked.joinBlocks (h : Linked m prev (pre ++ b :: c :: post) 0#32)
    (harr : Arranged (pre ++ b :: c :: post)) (hb : b.free = true) (hc : c.free = true) :
    Linked (joinBlocks b.addr c.addr m) prev (pre ++ mergeNext b (c :: post)) 0#32 := by
  have hbsize : field m b.addr .size = b.size := (linked_append.mp h).2.1.size
  obtain ⟨hcsize, -, hcnext, -⟩ := (linked_append.mp h).2.2.1
  have hmeets := meets_iff (c := c) (harr.bounded b (by simp))
  have hbc : HeadersApart b.addr c.addr := harr.middle_apart.2 c (.head _)
  unfold Mm.joinBlocks
  rw [mergeNext_cons, hbsize]
  by_cases hmeet : b.stop = c.addr.toNat
  · rw [if_neg (not_not.mpr (hmeets.mpr hmeet)), if_pos ⟨hb, hc, hmeet⟩]
    simp only [field_setField_of_apart hbc, hcsize, hcnext]
    exact h.absorb harr
  · rw [if_pos (mt hmeets.mp hmeet), if_neg fun hmerge => hmeet hmerge.2.2]
    exact h

/-- `try_merge` with the next block. -/
theorem Linked.tryMerge_next (h : Linked m prev (pre ++ b :: post) 0#32)
    (harr : Arranged (pre ++ b :: post)) (hb : b.free = true) :
    Linked (tryMerge b.addr (field m b.addr .next) true m) prev (pre ++ mergeNext b post)
      0#32 := by
  rw [(linked_middle.mp h).2.1.next]
  cases post with
  | nil => exact h
  | cons c post =>
    have hcfree : field m c.addr .free = if c.free then 1#32 else 0#32 :=
      (linked_append.mp h).2.2.1.free
    have hzero : c.addr ≠ 0#32 := harr.addr_ne_zero (by simp)
    change Linked (if c.addr = 0#32 ∨ field m c.addr .free = 0#32 then m
      else Mm.joinBlocks b.addr c.addr m) _ _ _
    rw [hcfree]
    cases hc : c.free with
    | true =>
      rw [if_neg (by simp [hzero])]
      exact h.joinBlocks harr hb hc
    | false =>
      rw [if_pos (.inr rfl), mergeNext_cons,
        if_neg fun hmerge => Bool.noConfusion (hc.symm.trans hmerge.2.1)]
      exact h

/-- `try_merge` with the block in front. -/
theorem Linked.tryMerge_prev (h : Linked m 0#32 (pre ++ b :: post) 0#32)
    (harr : Arranged (pre ++ b :: post)) (hb : b.free = true) :
    Linked (tryMerge b.addr (field m b.addr .prev) false m) 0#32 (mergePrev pre (b :: post))
      0#32 := by
  rw [(linked_middle.mp h).2.1.prev]
  rcases List.eq_nil_or_concat pre with rfl | ⟨pre, a, rfl⟩
  · exact h
  · rw [List.concat_eq_append] at *
    rw [lastAddr_concat, mergePrev_concat]
    rw [List.append_assoc] at h harr
    have hafree : field m a.addr .free = if a.free then 1#32 else 0#32 :=
      (linked_append.mp h).2.1.free
    have hzero : a.addr ≠ 0#32 := harr.addr_ne_zero (by simp)
    change Linked (if a.addr = 0#32 ∨ field m a.addr .free = 0#32 then m
      else Mm.joinBlocks a.addr b.addr m) _ _ _
    rw [hafree]
    cases ha : a.free with
    | true =>
      rw [if_neg (by simp [hzero])]
      exact h.joinBlocks harr ha hb
    | false =>
      rw [if_pos (.inr rfl), mergeNext_cons,
        if_neg fun hmerge => Bool.noConfusion (ha.symm.trans hmerge.1)]
      exact h

end

/-- The heap represents the list. -/
structure Represents (s : Heap) (l : List Block) : Prop where
  linked : Linked s.mem 0#32 l 0#32
  head : s.heapHead = firstAddr l 0#32

section

variable {s : Heap} {l pre post : List Block} {b : Block} {size : U32}

/-- Joining with the next block keeps the block in front. -/
theorem mergeNext_eq_cons (b : Block) (post : List Block) :
    ∃ c post', mergeNext b post = c :: post' ∧ c.addr = b.addr ∧ c.free = b.free := by
  cases post with
  | nil => exact ⟨b, [], rfl, rfl, rfl⟩
  | cons c post =>
    rw [mergeNext_cons]
    split_ifs
    · exact ⟨b.absorb c, post, rfl, rfl, rfl⟩
    · exact ⟨b, c :: post, rfl, rfl, rfl⟩

/-- Giving a block back keeps the address of the first block. -/
theorem firstAddr_release : firstAddr (release pre b post) 0#32 =
    firstAddr (pre ++ b :: post) 0#32 := by
  obtain ⟨c, post', hnext, hc, -⟩ := mergeNext_eq_cons { b with free := true } post
  unfold release
  rw [hnext]
  rcases List.eq_nil_or_concat pre with rfl | ⟨pre, a, rfl⟩
  · exact hc
  · obtain ⟨a', post'', hprev, ha, -⟩ := mergeNext_eq_cons a (c :: post')
    rw [List.concat_eq_append, mergePrev_concat, hprev, List.append_assoc, firstAddr_append,
      firstAddr_append]
    exact congrArg _ ha

/-- `kfree` of a block of the list: it is marked and joined with its neighbours. -/
theorem kfree_spec (h : Represents s (pre ++ b :: post)) (harr : Arranged (pre ++ b :: post)) :
    Represents (kfree (b.addr + headerSize) s) (release pre b post) ∧
      (kfree (b.addr + headerSize) s).pmm = s.pmm := by
  have hmax := harr.bounded b (by simp)
  have hptr : b.addr + headerSize ≠ 0#32 := by
    unfold Block.stop at hmax
    unfold headerSize
    bv_omega
  have hblock : b.addr + headerSize - headerSize = b.addr := BitVec.add_sub_cancel _ _
  have hmark : Linked (setField b.addr .free 1#32 s.mem) 0#32
      (pre ++ { b with free := true } :: post) 0#32 := h.linked.mark harr true
  have harrMark : Arranged (pre ++ { b with free := true } :: post) :=
    (arranged_mark _ _ _ true).1.mpr harr
  have hnext := hmark.tryMerge_next harrMark rfl
  have harrNext := (arranged_mergeNext harrMark).1
  obtain ⟨c, post', hcons, hc, hcfree⟩ := mergeNext_eq_cons { b with free := true } post
  rw [hcons] at hnext harrNext
  have hprev := hnext.tryMerge_prev harrNext hcfree
  rw [hc] at hprev
  unfold kfree
  rw [if_neg hptr, hblock]
  refine ⟨⟨?_, ?_⟩, rfl⟩
  · unfold release
    rw [hcons]
    exact hprev
  · rw [firstAddr_release]
    exact h.head

/-- The end of `kmalloc`: the block is marked as used, and a big leftover is split off. -/
theorem takeBlock_spec (h : Represents s (pre ++ b :: post)) (harr : Arranged (pre ++ b :: post))
    (hfits : b.Fits size) :
    Represents (takeBlock b.addr size s).2 (pre ++ b.carve size ++ post) ∧
      (takeBlock b.addr size s).1 = b.addr + headerSize ∧
      (takeBlock b.addr size s).2.pmm = s.pmm := by
  have hsize := (linked_middle.mp h.linked).2.1.size
  have harrCarve := (arranged_carve harr hfits.2).1
  have hsplitSize : size + headerSize + minSplitSize = size + 32#32 := BitVec.add_assoc _ _ _
  have hhead : s.heapHead = firstAddr pre b.addr := h.head.trans firstAddr_middle
  refine ⟨?_, rfl, rfl⟩
  unfold takeBlock
  rw [hsize, hsplitSize]
  unfold Block.carve at harrCarve ⊢
  split_ifs at harrCarve ⊢ with hsplit
  · simp only [List.append_assoc, List.cons_append, List.nil_append] at harrCarve ⊢
    have harrSplit : Arranged (pre ++ ⟨b.addr, size, b.free⟩ :: b.leftover size :: post) :=
      (arranged_mark _ _ ⟨b.addr, size, false⟩ b.free).1.mpr harrCarve
    have hlinked := (h.linked.split harrSplit).mark harrSplit false
    exact ⟨hlinked, hhead.trans (firstAddr_middle (b := ⟨b.addr, size, false⟩)).symm⟩
  · simp only [List.append_assoc, List.cons_append, List.nil_append] at harrCarve ⊢
    exact ⟨h.linked.mark harr false,
      hhead.trans (firstAddr_middle (b := ⟨b.addr, b.size, false⟩)).symm⟩

end

/-- The block that `heap_extend` makes of `got` pages. -/
def newBlock (first got : U32) : Block := ⟨first <<< 12, got * pageSize - headerSize, true⟩

section

variable {s : Heap} {l : List Block} {p p' : Pmm} {first got pages size : U32}

/-- The payload of the new block. -/
theorem size_newBlock (h : ObtainsPages p pages first got.toNat p') :
    (newBlock first got).size.toNat = got.toNat * 4096 - 16 := by
  have hbound := h.bound
  have hpos := h.pos
  have hheader : headerSize.toNat = 16 := rfl
  have hmul : (got * pageSize).toNat = got.toNat * 4096 := by
    rw [BitVec.toNat_mul, show pageSize.toNat = 4096 from rfl]
    omega
  have hle : headerSize ≤ got * pageSize := by
    rw [BitVec.le_def, hmul, hheader]
    omega
  change (got * pageSize - headerSize).toNat = _
  rw [BitVec.toNat_sub_of_le hle, hmul, hheader]

/-- The address of the new block. -/
theorem addr_newBlock (h : ObtainsPages p pages first got.toNat p') :
    (newBlock first got).addr.toNat = first.toNat * 4096 := by
  have hbound := h.bound
  have hmax : maxPages.toNat = 32768 := rfl
  exact toNat_pageAddr (by bv_omega)

/-- The new block fills its pages. -/
theorem stop_newBlock (h : ObtainsPages p pages first got.toNat p') :
    (newBlock first got).stop = (first.toNat + got.toNat) * 4096 := by
  have hpos := h.pos
  have haddr := addr_newBlock h
  have hsize := size_newBlock h
  unfold Block.stop
  omega

/-- The new block may be appended to the list. -/
theorem arranged_newBlock (harr : Arranged l) (hpos : ∀ q, p.Free q → q ≠ 0#32)
    (habove : ∀ b ∈ l, ∀ q, p.Free q → b.stop ≤ q.toNat * 4096)
    (h : ObtainsPages p pages first got.toNat p') :
    Arranged (l ++ [newBlock first got]) ∧ occupied (l ++ [newBlock first got]) =
      occupied l ∪ Set.Ico (first.toNat * 4096) ((first.toNat + got.toNat) * 4096) := by
  have hfirst : p.Free first := h.run.free first le_rfl (by have := h.pos; omega)
  have hzero := hpos first hfirst
  have hbound := h.bound
  have haddr := addr_newBlock h
  have hstop := stop_newBlock h
  rw [← hstop, ← haddr]
  refine arranged_concat harr ?_ (by omega) fun c hc => ?_
  · have hne : first.toNat ≠ 0 := fun h0 => hzero (BitVec.eq_of_toNat_eq h0)
    omega
  · rw [haddr]
    exact habove c hc first hfirst

/-- `heap_extend` appends a block of all pages it obtains, and counts its payload as free, or finds
no page. -/
theorem heapExtend_spec (pages : U32) (h : Represents s l) (harr : Arranged l)
    (hpos : ∀ q, s.pmm.Free q → q ≠ 0#32)
    (habove : ∀ b ∈ l, ∀ q, s.pmm.Free q → b.stop ≤ q.toNat * 4096) (hpages : 0 < pages.toNat) :
    (∀ q, ¬ s.pmm.Free q) ∧ heapExtend pages s = some (0#32, s) ∨
      ∃ first got s', heapExtend pages s = some ((newBlock first got).addr, s') ∧
        ObtainsPages s.pmm pages first got.toNat s'.pmm ∧
        Represents s' (l ++ [newBlock first got]) ∧ s'.usedBytes = s.usedBytes ∧
        s'.freeBytes = s.freeBytes + (newBlock first got).size := by
  rcases pmmAllocPage_spec s.pmm with ⟨first, hfirst⟩ | ⟨hnone, hresult⟩
  · obtain ⟨got, p', hrun, hobtains⟩ := heapExtend_pages hpos hpages hfirst
    have harr' := (arranged_newBlock harr hpos habove hobtains).1
    have hzero : (newBlock first got).addr ≠ 0#32 := harr'.addr_ne_zero (by simp)
    have hapart : ∀ b ∈ l, HeadersApart (newBlock first got).addr b.addr := by
      have hall := harr'.headersApart
      rw [List.pairwise_append] at hall
      exact fun b hb => (hall.2.2 b hb _ (.head _)).symm
    have hzero' : first <<< 12 ≠ 0#32 := hzero
    let mem := initBlock (newBlock first got).addr (newBlock first got).size s.mem
    let freeBytes := s.freeBytes + (newBlock first got).size
    have hrun' : heapExtend pages s =
        if s.heapHead = 0#32 then
          some ((newBlock first got).addr,
            ⟨mem, p', (newBlock first got).addr, s.usedBytes, freeBytes⟩)
        else (lastBlock mem (2 ^ 32) s.heapHead).map fun tail =>
          ((newBlock first got).addr,
            ⟨setField (newBlock first got).addr .prev tail
              (setField tail .next (newBlock first got).addr mem), p', s.heapHead, s.usedBytes,
              freeBytes⟩) := by
      unfold heapExtend
      dsimp only
      rw [hrun, hfirst.address, if_neg hzero']
      rfl
    have hheader : HeaderAt mem (newBlock first got) 0#32 0#32 := headerAt_initBlock _ _ _
    rw [hrun', h.head]
    rcases List.eq_nil_or_concat l with rfl | ⟨pre, t, rfl⟩
    · rw [if_pos (show firstAddr [] 0#32 = 0#32 from rfl)]
      exact .inr ⟨first, got, _, rfl, hobtains, ⟨⟨hheader, trivial⟩, rfl⟩, rfl, rfl⟩
    · rw [List.concat_eq_append] at *
      have hlinked : Linked mem 0#32 (pre ++ [t]) 0#32 := h.linked.initBlock hapart
      obtain ⟨hne, hlast⟩ := lastBlock_concat hlinked harr
      have hhead : firstAddr (pre ++ [t] ++ [newBlock first got]) 0#32 =
          firstAddr (pre ++ [t]) 0#32 := by
        rw [List.append_assoc, firstAddr_append, firstAddr_append, firstAddr_append]
        rfl
      rw [if_neg hne, hlast]
      exact .inr ⟨first, got, _, rfl, hobtains, ⟨hlinked.concat hheader harr', hhead.symm⟩, rfl,
        rfl⟩
  · refine .inl ⟨hnone, ?_⟩
    unfold heapExtend
    rw [hresult]
    rfl

/-- How `kmalloc` ends for a request that was rounded up to `size` bytes, on the list `l`: the
pointer it returns, the heap after it and the list after it. -/
inductive KmallocOutcome (s : Heap) (l : List Block) (size : U32) :
    U32 → Heap → List Block → Prop
  /-- The first block that fits is taken. -/
  | found (pre : List Block) (b : Block) (post : List Block) (s' : Heap)
      (hl : l = pre ++ b :: post) (hfirst : ∀ a ∈ pre, ¬ a.Fits size) (hfits : b.Fits size)
      (hpmm : s'.pmm = s.pmm) :
      KmallocOutcome s l size (b.addr + headerSize) s' (pre ++ b.carve size ++ post)
  /-- The heap grows by a block that is big enough. -/
  | grown (first got : U32) (s' : Heap) (hnone : ∀ a ∈ l, ¬ a.Fits size)
      (hpages : ObtainsPages s.pmm (needPages size) first got.toNat s'.pmm)
      (hsize : size ≤ (newBlock first got).size) :
      KmallocOutcome s l size ((newBlock first got).addr + headerSize) s'
        (l ++ (newBlock first got).carve size)
  /-- The heap grows by a block that is still too small, which stays free. -/
  | tooSmall (first got : U32) (s' : Heap) (hnone : ∀ a ∈ l, ¬ a.Fits size)
      (hpages : ObtainsPages s.pmm (needPages size) first got.toNat s'.pmm)
      (hsize : (newBlock first got).size < size) :
      KmallocOutcome s l size 0#32 s' (l ++ [newBlock first got])
  /-- There is no page left. -/
  | noPage (hnone : ∀ a ∈ l, ¬ a.Fits size) (hpages : ∀ q, ¬ s.pmm.Free q) :
      KmallocOutcome s l size 0#32 s l

/-- `kmalloc` always asks for a page. -/
theorem needPages_pos (size : U32) : 0 < (needPages size).toNat := by
  unfold needPages
  dsimp only
  split_ifs with hlt
  · decide
  · bv_omega

/-- The code that `kmalloc` runs for a request that was rounded up to `size` bytes, on the list `l`:
its result, and the list after it. -/
inductive KmallocSteps (s : Heap) (l : List Block) (size : U32) :
    U32 × Heap → List Block → Prop
  /-- The first block that fits is taken. -/
  | found (pre : List Block) (b : Block) (post : List Block) (hl : l = pre ++ b :: post)
      (hfirst : ∀ a ∈ pre, ¬ a.Fits size) (hfits : b.Fits size) :
      KmallocSteps s l size (takeBlock b.addr size s) (pre ++ b.carve size ++ post)
  /-- The heap grows by a block that is big enough, which is taken. -/
  | grown (first got : U32) (s' : Heap) (hnone : ∀ a ∈ l, ¬ a.Fits size)
      (hpages : ObtainsPages s.pmm (needPages size) first got.toNat s'.pmm)
      (hrepresents : Represents s' (l ++ [newBlock first got]))
      (hused : s'.usedBytes = s.usedBytes)
      (hcount : s'.freeBytes = s.freeBytes + (newBlock first got).size)
      (hsize : size ≤ (newBlock first got).size) :
      KmallocSteps s l size (takeBlock (newBlock first got).addr size s')
        (l ++ (newBlock first got).carve size)
  /-- The heap grows by a block that is still too small. -/
  | tooSmall (first got : U32) (s' : Heap) (hnone : ∀ a ∈ l, ¬ a.Fits size)
      (hpages : ObtainsPages s.pmm (needPages size) first got.toNat s'.pmm)
      (hrepresents : Represents s' (l ++ [newBlock first got]))
      (hused : s'.usedBytes = s.usedBytes)
      (hcount : s'.freeBytes = s.freeBytes + (newBlock first got).size)
      (hsize : (newBlock first got).size < size) :
      KmallocSteps s l size (0#32, s') (l ++ [newBlock first got])
  /-- There is no page left. -/
  | noPage (hnone : ∀ a ∈ l, ¬ a.Fits size) (hpages : ∀ q, ¬ s.pmm.Free q) :
      KmallocSteps s l size (0#32, s) l

/-- Where a block fits, the heap does not grow. -/
theorem KmallocSteps.of_fits {r : U32 × Heap} {l' : List Block} (h : KmallocSteps s l size r l')
    (hfits : ∃ b ∈ l, b.Fits size) :
    ∃ pre b post, l = pre ++ b :: post ∧ b.Fits size ∧ r = takeBlock b.addr size s ∧
      l' = pre ++ b.carve size ++ post := by
  obtain ⟨c, hc, hfits⟩ := hfits
  cases h with
  | found pre b post hl hfirst hb => exact ⟨pre, b, post, hl, hb, rfl, rfl⟩
  | grown first got s' hnone => exact absurd hfits (hnone c hc)
  | tooSmall first got s' hnone => exact absurd hfits (hnone c hc)
  | noPage hnone => exact absurd hfits (hnone c hc)

/-- `kmalloc` of a nonzero size runs in one of the four ways. -/
theorem kmalloc_steps {n : U32} (h : Represents s l) (harr : Arranged l)
    (hpos : ∀ q, s.pmm.Free q → q ≠ 0#32)
    (habove : ∀ b ∈ l, ∀ q, s.pmm.Free q → b.stop ≤ q.toNat * 4096) (hn : n ≠ 0#32) :
    ∃ r l', kmalloc n s = some r ∧ KmallocSteps s l (alignUp n alignment) r l' := by
  generalize hsize : alignUp n alignment = size
  have hlength := harr.length_lt
  have hsearch := firstFit_spec size (2 ^ 32) h.linked (fun b hb => harr.addr_ne_zero hb) (by omega)
  have hbody : kmalloc n s =
      (firstFit s.mem size (2 ^ 32) (firstAddr l 0#32)).bind fun block =>
        if block = 0#32 then
          (heapExtend (needPages size) s).map fun r =>
            if r.1 = 0#32 ∨ field r.2.mem r.1 .size < size then (0#32, r.2)
            else takeBlock r.1 size r.2
        else some (takeBlock block size s) := by
    rw [← h.head, ← hsize]
    exact if_neg hn
  rw [hbody, hsearch, Option.bind_some]
  cases hfind : l.find? fun b => b.Fits size with
  | some b =>
    obtain ⟨hfits, pre, post, rfl, hfirst⟩ := List.find?_eq_some_iff_append.mp hfind
    have hfits : b.Fits size := by simpa using hfits
    have hfirst : ∀ a ∈ pre, ¬ a.Fits size := by simpa using hfirst
    have hzero : b.addr ≠ 0#32 := harr.addr_ne_zero (by simp)
    refine ⟨takeBlock b.addr size s, _, ?_, .found pre b post rfl hfirst hfits⟩
    change (if b.addr = 0#32 then _ else some (takeBlock b.addr size s)) = _
    rw [if_neg hzero]
  | none =>
    have hnone : ∀ a ∈ l, ¬ a.Fits size := by simpa using hfind
    rw [if_pos (show (none : Option Block).elim 0#32 Block.addr = 0#32 from rfl)]
    rcases heapExtend_spec (needPages size) h harr hpos habove (needPages_pos size) with
      ⟨hempty, hrun⟩ | ⟨first, got, s', hrun, hpages, hrepresents, hused, hcount⟩
    · rw [hrun]
      exact ⟨(0#32, s), l, rfl, .noPage hnone hempty⟩
    · obtain ⟨harr', -⟩ := arranged_newBlock harr hpos habove hpages
      have hzero : (newBlock first got).addr ≠ 0#32 := harr'.addr_ne_zero (by simp)
      have hnew : field s'.mem (newBlock first got).addr .size = (newBlock first got).size :=
        (linked_append.mp hrepresents.linked).2.1.size
      rw [hrun, Option.map_some]
      dsimp only
      rw [hnew]
      by_cases hle : (newBlock first got).size < size
      · rw [if_pos (.inr hle)]
        exact ⟨_, _, rfl, .tooSmall first got s' hnone hpages hrepresents hused hcount hle⟩
      · have hle' : size ≤ (newBlock first got).size := by bv_omega
        rw [if_neg (by simp [hzero, hle])]
        exact ⟨_, _, rfl, .grown first got s' hnone hpages hrepresents hused hcount hle'⟩

/-- The way `kmalloc` ran decides how it ends. -/
theorem KmallocSteps.outcome {r : U32 × Heap} {l' : List Block} (h : KmallocSteps s l size r l')
    (hrepresents : Represents s l) (harr : Arranged l) (hpos : ∀ q, s.pmm.Free q → q ≠ 0#32)
    (habove : ∀ b ∈ l, ∀ q, s.pmm.Free q → b.stop ≤ q.toNat * 4096) :
    Represents r.2 l' ∧ KmallocOutcome s l size r.1 r.2 l' := by
  cases h with
  | found pre b post hl hfirst hfits =>
    subst hl
    obtain ⟨htaken, hptr, hpmm⟩ := takeBlock_spec hrepresents harr hfits
    rw [hptr]
    exact ⟨htaken, .found pre b post _ rfl hfirst hfits hpmm⟩
  | grown first got s' hnone hpages hrepresents' hused hcount hsize =>
    have harr' := (arranged_newBlock harr hpos habove hpages).1
    obtain ⟨htaken, hptr, hpmm⟩ := takeBlock_spec hrepresents' harr' ⟨rfl, hsize⟩
    rw [List.append_nil] at htaken
    rw [hptr]
    exact ⟨htaken, .grown first got _ hnone (hpmm ▸ hpages) hsize⟩
  | tooSmall first got s' hnone hpages hrepresents' hused hcount hsize =>
    exact ⟨hrepresents', .tooSmall first got s' hnone hpages hsize⟩
  | noPage hnone hpages => exact ⟨hrepresents, .noPage hnone hpages⟩

end

end AlderKernel.Mm
