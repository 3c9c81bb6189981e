import AlderKernel.Mm.AllocSizes

/-!
# What clients keep in the heap

`kmalloc` and `kfree` write to headers only. No header lies in the payload of a block in use, so
what a client stores to its block stays there until the client frees it.
-/

namespace AlderKernel.Mm

open Machine

/-- Memory has changed in headers at these addresses only. -/
def WritesHeaders (A : Set U32) (m m' : Memory) : Prop :=
  ∀ x, (∀ a ∈ A, ¬ Within a 16 x) → m'.byte x = m.byte x

/-- The addresses of the headers of a list. -/
def addrs (l : List Block) : Set U32 := {a | ∃ b ∈ l, b.addr = a}

section

variable {A B : Set U32} {m m' m'' : Memory} {s s' : Heap} {l l' pre post : List Block}
  {b c : Block} {a v prev size : U32} {f : HeapField}

/-- Writing nothing writes headers only. -/
theorem WritesHeaders.refl (A : Set U32) (m : Memory) : WritesHeaders A m m := fun _ _ => rfl

/-- One header write after another writes headers only. -/
theorem WritesHeaders.trans (h : WritesHeaders A m m') (h' : WritesHeaders A m' m'') :
    WritesHeaders A m m'' := fun x hx => (h' x hx).trans (h x hx)

/-- What writes some headers writes headers of a larger set. -/
theorem WritesHeaders.mono (h : WritesHeaders A m m') (hAB : A ⊆ B) : WritesHeaders B m m' :=
  fun x hx => h x fun a ha => hx a (hAB ha)

/-- A block of the list has one of the addresses of the list. -/
theorem mem_addrs (hb : b ∈ l) : b.addr ∈ addrs l := ⟨b, hb, rfl⟩

/-- The addresses of a list lie among those of another when each block's does. -/
theorem addrs_mono (h : ∀ b ∈ l, b.addr ∈ addrs l') : addrs l ⊆ addrs l' := by
  rintro a ⟨b, hb, rfl⟩
  exact h b hb

/-! ### The writes of `heap.c` -/

/-- Setting a field writes to the header of its block. -/
theorem writesHeaders_setField (ha : a ∈ A) (f : HeapField) (v : U32) (m : Memory) :
    WritesHeaders A m (setField a f v m) := by
  intro x hx
  have hout := hx a ha
  have hoffset := f.offset_le
  refine Memory.byte_store32_of_not_within ?_
  unfold Within at *
  bv_omega

/-- Setting the `prev` field of a following block writes to a header of the list. -/
theorem writesHeaders_setPrevOf (hl : addrs l ⊆ A) (v : U32) (m : Memory) :
    WritesHeaders A m (setPrevOf (firstAddr l 0#32) v m) := by
  unfold setPrevOf
  split_ifs with hnext
  · obtain hzero | ⟨b, hb, haddr⟩ := firstAddr_mem (l := l)
    · exact absurd hzero hnext
    · rw [haddr]
      exact writesHeaders_setField (hl (mem_addrs hb)) _ _ _
  · exact .refl _ _

/-- Joining two neighbours writes to the lower one, and to the block behind both. -/
theorem Linked.joinBlocks_writes (h : Linked m prev (pre ++ b :: c :: post) 0#32)
    (harr : Arranged (pre ++ b :: c :: post)) :
    WritesHeaders (addrs (pre ++ b :: c :: post)) m (Mm.joinBlocks b.addr c.addr m) := by
  have hbc : HeadersApart b.addr c.addr := harr.middle_apart.2 c (.head _)
  have hcnext : field m c.addr .next = firstAddr post 0#32 := (linked_append.mp h).2.2.1.next
  have hb : b.addr ∈ addrs (pre ++ b :: c :: post) := mem_addrs (by simp)
  have hpost : addrs post ⊆ addrs (pre ++ b :: c :: post) :=
    addrs_mono fun d hd => mem_addrs (by simp [hd])
  unfold Mm.joinBlocks
  split_ifs
  · exact .refl _ _
  · dsimp only
    rw [field_setField_of_apart hbc, field_setField_of_apart hbc, hcnext]
    exact ((writesHeaders_setField hb _ _ _).trans (writesHeaders_setField hb _ _ _)).trans
      (writesHeaders_setPrevOf hpost _ _)

/-- Merging with the next block writes headers of the list only. -/
theorem Linked.tryMerge_next_writes (h : Linked m prev (pre ++ b :: post) 0#32)
    (harr : Arranged (pre ++ b :: post)) :
    WritesHeaders (addrs (pre ++ b :: post)) m (tryMerge b.addr (field m b.addr .next) true m) := by
  rw [(linked_middle.mp h).2.1.next]
  cases post with
  | nil => exact .refl _ _
  | cons c post =>
    change WritesHeaders _ m (if c.addr = 0#32 ∨ field m c.addr .free = 0#32 then m
      else Mm.joinBlocks b.addr c.addr m)
    split_ifs
    · exact .refl _ _
    · exact h.joinBlocks_writes harr

/-- Merging with the previous block writes headers of the list only. -/
theorem Linked.tryMerge_prev_writes (h : Linked m 0#32 (pre ++ b :: post) 0#32)
    (harr : Arranged (pre ++ b :: post)) :
    WritesHeaders (addrs (pre ++ b :: post)) m
      (tryMerge b.addr (field m b.addr .prev) false m) := by
  rw [(linked_middle.mp h).2.1.prev]
  rcases List.eq_nil_or_concat pre with rfl | ⟨pre, a, rfl⟩
  · exact .refl _ _
  · rw [List.concat_eq_append] at *
    rw [lastAddr_concat]
    rw [List.append_assoc] at h harr ⊢
    change WritesHeaders _ m (if a.addr = 0#32 ∨ field m a.addr .free = 0#32 then m
      else Mm.joinBlocks a.addr b.addr m)
    split_ifs
    · exact .refl _ _
    · exact h.joinBlocks_writes harr

/-- `kfree` writes to headers of the list. -/
theorem kfree_writes (h : Represents s (pre ++ b :: post)) (harr : Arranged (pre ++ b :: post)) :
    WritesHeaders (addrs (pre ++ b :: post)) s.mem (kfree (b.addr + headerSize) s).mem := by
  have hptr : b.addr + headerSize ≠ 0#32 := harr.payload_ne_zero (by simp)
  have hblock : b.addr + headerSize - headerSize = b.addr := BitVec.add_sub_cancel _ _
  have hmark : Linked (setField b.addr .free 1#32 s.mem) 0#32
      (pre ++ { b with free := true } :: post) 0#32 := h.linked.mark harr true
  have harrMark : Arranged (pre ++ { b with free := true } :: post) :=
    (arranged_mark _ _ _ true).1.mpr harr
  have haddrs : addrs (pre ++ { b with free := true } :: post) ⊆ addrs (pre ++ b :: post) := by
    refine addrs_mono fun d hd => ?_
    rcases List.mem_append.mp hd with hd | hd
    · exact mem_addrs (by simp [hd])
    · rcases List.mem_cons.mp hd with rfl | hd
      · exact mem_addrs (b := b) (by simp)
      · exact mem_addrs (by simp [hd])
  have hnext := hmark.tryMerge_next harrMark rfl
  have harrNext := (arranged_mergeNext harrMark).1
  obtain ⟨c, post', hcons, hc, -⟩ := mergeNext_eq_cons { b with free := true } post
  -- Joining with the next block leaves no header that was not there before.
  have hjoined : addrs (pre ++ c :: post') ⊆ addrs (pre ++ b :: post) := by
    refine Set.Subset.trans (addrs_mono fun d hd => ?_) haddrs
    rw [← hcons] at hd
    rcases List.mem_append.mp hd with hd | hd
    · exact mem_addrs (by simp [hd])
    · cases post with
      | nil =>
        obtain rfl := List.mem_singleton.mp hd
        exact mem_addrs (by simp)
      | cons e post =>
        rw [mergeNext_cons] at hd
        split_ifs at hd
        · rcases List.mem_cons.mp hd with rfl | hd
          · exact mem_addrs (b := { b with free := true }) (by simp)
          · exact mem_addrs (by simp [hd])
        · exact mem_addrs (by simp [hd])
  rw [hcons] at hnext harrNext
  have hprev := (hnext.tryMerge_prev_writes harrNext).mono hjoined
  rw [hc] at hprev
  unfold kfree
  rw [if_neg hptr, hblock]
  exact ((writesHeaders_setField (mem_addrs (by simp)) _ _ _).trans
    ((hmark.tryMerge_next_writes harrMark).mono haddrs)).trans hprev

/-- A block that is carved keeps its header. -/
theorem addr_mem_carve (pre : List Block) (b : Block) (size : U32) :
    b.addr ∈ addrs (pre ++ b.carve size) := by
  unfold Block.carve
  split_ifs
  · exact mem_addrs (b := ⟨b.addr, size, false⟩) (by simp)
  · exact mem_addrs (b := ⟨b.addr, b.size, false⟩) (by simp)

/-- Taking a block writes to headers of the list that is left. -/
theorem takeBlock_writes (h : Represents s (pre ++ b :: post)) (harr : Arranged (pre ++ b :: post))
    (hfits : b.Fits size) :
    WritesHeaders (addrs (pre ++ b.carve size ++ post)) s.mem (takeBlock b.addr size s).2.mem := by
  obtain ⟨hbsize, -, hbnext, -⟩ := (linked_middle.mp h.linked).2.1
  have hsplitSize : size + headerSize + minSplitSize = size + 32#32 := BitVec.add_assoc _ _ _
  have harrCarve := (arranged_carve harr hfits.2).1
  have hb : b.addr ∈ addrs (pre ++ b.carve size ++ post) :=
    addrs_mono (fun c hc => mem_addrs (List.mem_append_left _ hc)) (addr_mem_carve pre b size)
  have hpost : addrs post ⊆ addrs (pre ++ b.carve size ++ post) :=
    addrs_mono fun d hd => mem_addrs (by simp [hd])
  unfold takeBlock
  rw [hbsize, hsplitSize]
  dsimp only
  split_ifs with hsplit
  · have hcarve : b.carve size = [⟨b.addr, size, false⟩, b.leftover size] := if_pos hsplit
    have hrest : b.addr + headerSize + size ∈ addrs (pre ++ b.carve size ++ post) :=
      mem_addrs (b := b.leftover size) (by simp [hcarve])
    rw [hcarve, List.append_assoc, List.cons_append, List.cons_append, List.nil_append]
      at harrCarve
    have hapart : HeadersApart (b.addr + headerSize + size) b.addr :=
      (harrCarve.middle_apart.2 (b.leftover size) (.head _)).symm
    refine .trans ?_ (writesHeaders_setField hb _ _ _)
    unfold splitBlock
    dsimp only
    simp only [field_setField_of_apart hapart, hbnext]
    refine .trans (.trans (.trans ?_ (writesHeaders_setPrevOf hpost _ _))
      (writesHeaders_setField hb _ _ _)) (writesHeaders_setField hb _ _ _)
    exact (((writesHeaders_setField hrest _ _ _).trans (writesHeaders_setField hrest _ _ _)).trans
      (writesHeaders_setField hrest _ _ _)).trans (writesHeaders_setField hrest _ _ _)
  · exact writesHeaders_setField hb _ _ _

/-- A new block is written, and linked behind the last one of the list. -/
theorem heapExtend_writes {pages block : U32} (h : Represents s l) (harr : Arranged l)
    (hrun : heapExtend pages s = some (block, s')) (hapart : ∀ b ∈ l, HeadersApart block b.addr) :
    WritesHeaders (insert block (addrs l)) s.mem s'.mem := by
  unfold heapExtend at hrun
  dsimp only at hrun
  generalize pmmAllocPage s.pmm = first at hrun
  generalize extendPages (pages.toNat - 1) 1#32 (first.1 + pageSize) first.2 = got at hrun
  have hinit (size : U32) : WritesHeaders (insert first.1 (addrs l)) s.mem
      (initBlock first.1 size s.mem) := by
    have hfirst : first.1 ∈ insert first.1 (addrs l) := Set.mem_insert _ _
    exact (((writesHeaders_setField hfirst _ _ _).trans (writesHeaders_setField hfirst _ _ _)).trans
      (writesHeaders_setField hfirst _ _ _)).trans (writesHeaders_setField hfirst _ _ _)
  split_ifs at hrun with hzero hhead
  · obtain ⟨-, rfl⟩ := Prod.mk.inj (Option.some.inj hrun)
    exact .refl _ _
  · obtain ⟨rfl, rfl⟩ := Prod.mk.inj (Option.some.inj hrun)
    exact hinit _
  · obtain ⟨tail, htail, hresult⟩ := Option.map_eq_some_iff.mp hrun
    obtain ⟨rfl, rfl⟩ := Prod.mk.inj hresult
    rcases List.eq_nil_or_concat l with rfl | ⟨pre, t, rfl⟩
    · exact absurd h.head hhead
    · rw [List.concat_eq_append] at *
      have hlinked := @Linked.initBlock _ _ _ _ _ (got.1 * pageSize - headerSize) h.linked hapart
      rw [h.head, (lastBlock_concat hlinked harr).2] at htail
      obtain rfl := Option.some.inj htail
      exact ((hinit _).trans (writesHeaders_setField
        (Set.mem_insert_of_mem _ (mem_addrs (by simp))) _ _ _)).trans
          (writesHeaders_setField (Set.mem_insert _ _) _ _ _)

end

section

variable {start : Pmm} {s : Heap} {live : Set U32} {l l' : List Block} {n ptr : U32}
  {r : U32 × Heap}

/-- `heap_extend` has written to the headers of the list and of its new block. -/
theorem HeapInv.extend_writes {s' : Heap} {pages block : U32} (h : HeapInv start s live l)
    (hpos : ∀ q, start.Free q → q ≠ 0#32) (hpages : 0 < pages.toNat)
    (hrun : heapExtend pages s = some (block, s')) :
    block = 0#32 ∧ s' = s ∨ ∃ first got, block = (newBlock first got).addr ∧
      ObtainsPages s.pmm pages first got.toNat s'.pmm ∧
      Represents s' (l ++ [newBlock first got]) ∧ Arranged (l ++ [newBlock first got]) ∧
      WritesHeaders (addrs (l ++ [newBlock first got])) s.mem s'.mem := by
  have haccounts := h.accounts
  have hpos' : ∀ q, s.pmm.Free q → q ≠ 0#32 := fun q hq => hpos q (haccounts.freeBefore q hq)
  have habove : ∀ b ∈ l, ∀ q, s.pmm.Free q → b.stop ≤ q.toNat * 4096 :=
    fun b hb q hq => haccounts.stop_le hb hq
  rcases heapExtend_spec pages h.represents haccounts.arranged hpos' habove hpages with
    ⟨-, hnone⟩ | ⟨first, got, s₁, hsome, hobtains, hrepresents, -, -⟩
  · rw [hnone] at hrun
    obtain ⟨rfl, rfl⟩ := Prod.mk.inj (Option.some.inj hrun)
    exact .inl ⟨rfl, rfl⟩
  · have hsame := hrun
    rw [hsome] at hsame
    obtain ⟨rfl, rfl⟩ := Prod.mk.inj (Option.some.inj hsame)
    have harr := (arranged_newBlock haccounts.arranged hpos' habove hobtains).1
    have hapart : ∀ b ∈ l, HeadersApart (newBlock first got).addr b.addr := by
      have hall := harr.headersApart
      rw [List.pairwise_append] at hall
      exact fun b hb => (hall.2.2 b hb _ (.head _)).symm
    refine .inr ⟨first, got, rfl, hobtains, hrepresents, harr, ?_⟩
    refine (heapExtend_writes h.represents haccounts.arranged hrun hapart).mono ?_
    exact Set.insert_subset (mem_addrs (by simp)) (addrs_mono fun b hb => mem_addrs (by simp [hb]))

/-- `kmalloc` writes to headers of the list that it leaves. -/
theorem HeapInv.kmalloc_writes (h : HeapInv start s live l)
    (hpos : ∀ q, start.Free q → q ≠ 0#32) (hn : n ≠ 0#32) (hrun : Mm.kmalloc n s = some r)
    (hsteps : KmallocSteps s l (alignUp n alignment) r l') :
    WritesHeaders (addrs l') s.mem r.2.mem := by
  have harr := h.accounts.arranged
  -- Without a block that fits, the heap has been extended.
  have hgrown (hnone : ∀ a ∈ l, ¬ a.Fits (alignUp n alignment)) :
      ∃ block s₁, heapExtend (needPages (alignUp n alignment)) s = some (block, s₁) ∧
        (r = (0#32, s₁) ∨ block ≠ 0#32 ∧ r = takeBlock block (alignUp n alignment) s₁) := by
    have hsearch := firstFit_spec (alignUp n alignment) (2 ^ 32) h.represents.linked
      (fun b hb => harr.addr_ne_zero hb) (by have := harr.length_lt; omega)
    have hfind : (l.find? fun b => b.Fits (alignUp n alignment)) = none := by simpa using hnone
    rw [hfind] at hsearch
    unfold Mm.kmalloc at hrun
    rw [if_neg hn] at hrun
    dsimp only at hrun
    rw [h.represents.head, hsearch, Option.bind_some] at hrun
    obtain ⟨r₁, hextend, hend⟩ := Option.map_eq_some_iff.mp hrun
    refine ⟨r₁.1, r₁.2, hextend, ?_⟩
    split_ifs at hend with hfail
    · exact .inl hend.symm
    · exact .inr ⟨fun hzero => hfail (.inl hzero), hend.symm⟩
  have hneed := needPages_pos (alignUp n alignment)
  cases hsteps with
  | found pre b post hl hfirst hfits =>
    subst hl
    exact takeBlock_writes h.represents harr hfits
  | grown first got s' hnone hobtains hrepresents hused hcount hsize =>
    have hne : (takeBlock (newBlock first got).addr (alignUp n alignment) s').1 ≠ 0#32 :=
      (h.accounts.extend hpos hobtains).arranged.payload_ne_zero (by simp)
    obtain ⟨block, s₁, hextend, hzero | ⟨hblock, htake⟩⟩ := hgrown hnone
    · exact absurd (congrArg Prod.fst hzero) hne
    · obtain ⟨first', got', rfl, hobtains', hrepresents', harr', hwrites⟩ :=
        (h.extend_writes hpos hneed hextend).resolve_left fun hnull => hblock hnull.1
      obtain ⟨rfl, hgot⟩ := hobtains.unique hobtains'
      obtain rfl := BitVec.eq_of_toNat_eq hgot
      have htaken := takeBlock_writes hrepresents' harr' ⟨rfl, hsize⟩
      rw [List.append_nil] at htaken
      rw [htake]
      refine (hwrites.mono (addrs_mono fun b hb => ?_)).trans htaken
      rcases List.mem_append.mp hb with hb | hb
      · exact mem_addrs (by simp [hb])
      · obtain rfl := List.mem_singleton.mp hb
        exact addr_mem_carve l _ _
  | tooSmall first got s' hnone hobtains hrepresents hused hcount hsize =>
    obtain ⟨block, s₁, hextend, hzero | ⟨hblock, htake⟩⟩ := hgrown hnone
    · obtain rfl : s' = s₁ := congrArg Prod.snd hzero
      obtain ⟨-, rfl⟩ | ⟨first', got', -, hobtains', -, -, hwrites⟩ :=
        h.extend_writes hpos hneed hextend
      · exact .refl _ _
      · obtain ⟨rfl, hgot⟩ := hobtains.unique hobtains'
        obtain rfl := BitVec.eq_of_toNat_eq hgot
        exact hwrites
    · obtain ⟨first', got', rfl, -, -, harr', -⟩ :=
        (h.extend_writes hpos hneed hextend).resolve_left fun hnull => hblock hnull.1
      exact absurd (congrArg Prod.fst htake).symm (harr'.payload_ne_zero (by simp))
  | noPage hnone hpages => exact .refl _ _

/-! ### Payloads -/

/-- No header of the list is in a payload. -/
theorem HeapInv.payload_notHeader {b : Block} {i : ℕ} (h : HeapInv start s live l) (hb : b ∈ l)
    (hi : i < b.size.toNat) :
    ∀ a ∈ addrs l, ¬ Within a 16 (b.addr + headerSize + BitVec.ofNat 32 i) := by
  rintro a ⟨c, hc, rfl⟩ hwithin
  have hdisjoint := (h.wellFormed.payloads b hb c hc).2
  have hmax := h.accounts.arranged.bounded b hb
  have hcmax := h.accounts.arranged.bounded c hc
  unfold Block.stop at hmax hcmax
  have haddr : (b.addr + headerSize + BitVec.ofNat 32 i).toNat = b.addr.toNat + 16 + i := by
    unfold headerSize
    bv_omega
  have hpayload : b.addr.toNat + 16 + i ∈ b.payload :=
    ⟨Nat.le_add_right _ _, by unfold Block.stop; omega⟩
  refine Set.disjoint_left.mp hdisjoint hpayload ?_
  unfold Within at hwithin
  exact ⟨by bv_omega, by bv_omega⟩

/-- `kmalloc` leaves the payloads of blocks in use alone. -/
theorem HeapInv.kmalloc_keeps {s' : Heap} {b : Block} {i : ℕ} (h : HeapInv start s live l)
    (hpos : ∀ q, start.Free q → q ≠ 0#32) (hrun : Mm.kmalloc n s = some (ptr, s'))
    (hb : b ∈ inUse l) (hi : i < b.size.toNat) :
    s'.mem.byte (b.addr + headerSize + BitVec.ofNat 32 i) =
      s.mem.byte (b.addr + headerSize + BitVec.ofNat 32 i) := by
  by_cases hn : n = 0#32
  · have hnull : Mm.kmalloc n s = some (0#32, s) := if_pos hn
    rw [hnull] at hrun
    obtain ⟨-, rfl⟩ := Prod.mk.inj (Option.some.inj hrun)
    rfl
  · obtain ⟨r, l', hrun', hsteps⟩ := h.kmalloc_steps hpos hn
    obtain rfl := Option.some.inj (hrun.symm.trans hrun')
    obtain ⟨hinv, hkept⟩ := h.steps hpos hsteps
    exact h.kmalloc_writes hpos hn hrun hsteps _
      (hinv.payload_notHeader (List.mem_filter.mp (hkept b hb)).1 hi)

/-- `kfree` leaves all payloads alone. -/
theorem HeapInv.kfree_keeps {b : Block} {i : ℕ} (h : HeapInv start s live l)
    (hptr : ptr = 0#32 ∨ ptr ∈ live) (hb : b ∈ l) (hi : i < b.size.toNat) :
    (Mm.kfree ptr s).mem.byte (b.addr + headerSize + BitVec.ofNat 32 i) =
      s.mem.byte (b.addr + headerSize + BitVec.ofNat 32 i) := by
  rcases hptr with rfl | hptr
  · rw [kfree_null]
  · obtain ⟨pre, c, post, rfl, -, rfl⟩ := h.split_live hptr
    exact kfree_writes h.represents h.accounts.arranged _ (h.payload_notHeader hb hi)

end

/-- The bytes that clients have stored to their blocks, by pointer and index. -/
abbrev ClientBytes := U32 → ℕ → Option U8

/-- The states that the heap reaches, with what clients have stored since they got their blocks. -/
inductive ClientRun (start : Pmm) : Heap → Set U32 → ClientBytes → Prop
  | init {s s' : Heap} (hpmm : s.pmm = start) (hinit : heapInit s = some s') :
      ClientRun start s' ∅ fun _ _ => none
  | kmalloc {s s' : Heap} {live : Set U32} {bytes : ClientBytes} {ptr : U32}
      (h : ClientRun start s live bytes) (n : U32) (hrun : kmalloc n s = some (ptr, s')) :
      ClientRun start s' (if ptr = 0#32 then live else insert ptr live)
        (if ptr = 0#32 then bytes else Function.update bytes ptr fun _ => none)
  | kfree {s : Heap} {live : Set U32} {bytes : ClientBytes} (h : ClientRun start s live bytes)
      (ptr : U32) (hptr : ptr = 0#32 ∨ ptr ∈ live) :
      ClientRun start (kfree ptr s) (live \ {ptr}) bytes
  | store {s : Heap} {live : Set U32} {bytes : ClientBytes} (h : ClientRun start s live bytes)
      (ptr : U32) (hptr : ptr ∈ live) (i : ℕ)
      (hi : i < (field s.mem (ptr - headerSize) .size).toNat) (v : U8) :
      ClientRun start { s with mem := s.mem.write (ptr + BitVec.ofNat 32 i) v } live
        (Function.update bytes ptr (Function.update (bytes ptr) i (some v)))

/-- The bytes are in the payloads of blocks in use. -/
def HoldsBytes (s : Heap) (l : List Block) (live : Set U32) (bytes : ClientBytes) : Prop :=
  ∀ ptr ∈ live, ∀ i v, bytes ptr i = some v →
    ∃ b ∈ inUse l, b.addr + headerSize = ptr ∧ i < b.size.toNat ∧
      s.mem.byte (ptr + BitVec.ofNat 32 i) = v

section

variable {start : Pmm} {s : Heap} {live : Set U32} {l : List Block} {bytes : ClientBytes}
  {ptr : U32}

/-- A byte is stored over at most one of the bytes that clients have. -/
theorem HoldsBytes.store {i : ℕ} (hinv : HeapInv start s live l) (h : HoldsBytes s l live bytes)
    (hptr : ptr ∈ live) (hi : i < (field s.mem (ptr - headerSize) .size).toNat) (v : U8) :
    HoldsBytes { s with mem := s.mem.write (ptr + BitVec.ofNat 32 i) v } l live
      (Function.update bytes ptr (Function.update (bytes ptr) i (some v))) := by
  have harr := hinv.accounts.arranged
  obtain ⟨b, hb, rfl⟩ := (hinv.accounts.live ptr).mp hptr
  have hbl := (List.mem_filter.mp hb).1
  rw [hinv.field_size hbl] at hi
  have hmax := harr.bounded b hbl
  unfold Block.stop at hmax
  intro ptr' hptr' j w hw
  by_cases hsame : ptr' = b.addr + headerSize
  · subst hsame
    rw [Function.update_self] at hw
    by_cases hij : j = i
    · subst hij
      rw [Function.update_self] at hw
      obtain rfl := Option.some.inj hw
      exact ⟨b, hb, rfl, hi, Memory.byte_write_self _ _ _⟩
    · rw [Function.update_of_ne hij] at hw
      obtain ⟨c, hc, hcb, hj, hbyte⟩ := h _ hptr' j w hw
      have hcmax := harr.bounded c (List.mem_filter.mp hc).1
      unfold Block.stop at hcmax
      refine ⟨c, hc, hcb, hj, (Memory.byte_write_of_ne ?_).trans hbyte⟩
      bv_omega
  · rw [Function.update_of_ne hsame] at hw
    obtain ⟨c, hc, rfl, hj, hbyte⟩ := h ptr' hptr' j w hw
    have hcl := (List.mem_filter.mp hc).1
    have hcmax := harr.bounded c hcl
    unfold Block.stop at hcmax
    have hne : b ≠ c := fun heq => hsame (heq ▸ rfl)
    have hapart := (hinv.wellFormed.payloads c hcl b hbl).1 hne
    refine ⟨c, hc, rfl, hj, (Memory.byte_write_of_ne fun heq => ?_).trans hbyte⟩
    -- One address would be in both payloads.
    have hpayload : c.addr.toNat + 16 + j ∈ c.payload :=
      ⟨Nat.le_add_right _ _, by unfold Block.stop; omega⟩
    refine Set.disjoint_left.mp hapart hpayload ?_
    unfold headerSize at heq
    exact ⟨by bv_omega, by unfold Block.stop; bv_omega⟩

/-- In every state of a run the bytes of the clients are where they stored them. -/
theorem ClientRun.holdsBytes (h : ClientRun start s live bytes)
    (hpos : ∀ q, start.Free q → q ≠ 0#32) :
    ∃ l, HeapInv start s live l ∧ HoldsBytes s l live bytes := by
  induction h with
  | init hpmm hinit =>
    obtain ⟨s', l, hrun, hinv, -⟩ := heapInv_init hpos hpmm
    obtain rfl := Option.some.inj (hinit.symm.trans hrun)
    exact ⟨l, hinv, fun ptr hptr => absurd hptr (Set.notMem_empty ptr)⟩
  | @kmalloc s s' live bytes ptr _ n hrun ih =>
    obtain ⟨l, hinv, hholds⟩ := ih
    obtain ⟨ptr', s'', l', hrun', hinv', hkept⟩ := hinv.kmalloc hpos n
    obtain ⟨rfl, rfl⟩ := Prod.mk.inj (Option.some.inj (hrun.symm.trans hrun'))
    have hkeep : HoldsBytes s' l' live bytes := by
      intro p hp i v hv
      obtain ⟨b, hb, rfl, hi, hbyte⟩ := hholds p hp i v hv
      exact ⟨b, hkept b hb, rfl, hi, (hinv.kmalloc_keeps hpos hrun hb hi).trans hbyte⟩
    refine ⟨l', hinv', ?_⟩
    split_ifs with hnull
    · exact hkeep
    · intro p hp i v hv
      by_cases hnew : p = ptr
      · rw [hnew, Function.update_self] at hv
        exact absurd hv (by simp)
      · rw [Function.update_of_ne hnew] at hv
        exact hkeep p (hp.resolve_left hnew) i v hv
  | @kfree s live bytes _ ptr hptr ih =>
    obtain ⟨l, hinv, hholds⟩ := ih
    have hbyte {b : Block} {i : ℕ} (hb : b ∈ inUse l) (hi : i < b.size.toNat) :=
      hinv.kfree_keeps hptr (List.mem_filter.mp hb).1 hi
    rcases hptr with rfl | hptr
    · rw [kfree_null, Set.sdiff_singleton_eq_self hinv.null_dead]
      exact ⟨l, hinv, hholds⟩
    · obtain ⟨l', hinv', hkept⟩ := hinv.kfree hptr
      refine ⟨l', hinv', fun p hp i v hv => ?_⟩
      obtain ⟨b, hb, rfl, hi, hold⟩ := hholds p hp.1 i v hv
      exact ⟨b, hkept b hb hp.2, rfl, hi, (hbyte hb hi).trans hold⟩
  | store _ ptr hptr i hi v ih =>
    obtain ⟨l, hinv, hholds⟩ := ih
    exact ⟨l, hinv.store hptr hi v, hholds.store hinv hptr hi v⟩

/-- The heap is a memory for its clients. After `pmm_init` on a memory map whose walk ends, and in
every order of allocations, frees and stores: a byte that a client has stored to a live block is
still there, until it is stored over or the block is freed. -/
theorem clientBytes_kept {m : Memory} {kernelEnd multibootInfoAddr : U32} {turns : ℕ} {boot : Pmm}
    (hinit : pmmInit m kernelEnd turns multibootInfoAddr boot = some start)
    (hrun : ClientRun start s live bytes) :
    ∀ p ∈ live, ∀ i v, bytes p i = some v → s.mem.byte (p + BitVec.ofNat 32 i) = v := by
  obtain ⟨l, -, hholds⟩ := hrun.holdsBytes (free_ne_zero hinit)
  intro p hp i v hv
  obtain ⟨b, -, -, -, hbyte⟩ := hholds p hp i v hv
  exact hbyte

end

/-- After the boot with one region, the byte that a client stores to its block of 100 bytes is still
there when another 100 bytes have been asked for. -/
theorem oneRegion_keepsByte : ∃ start s live bytes p,
    pmmInit oneRegion 0x180000#32 2 0x1000#32 ⟨fun _ => 0#8, 0#32⟩ = some start ∧
      ClientRun start s live bytes ∧ p ∈ live ∧ bytes p 5 = some 42#8 ∧
      s.mem.byte (p + BitVec.ofNat 32 5) = 42#8 := by
  obtain ⟨start, s, first, got, hinit, hrun, hinv, -, hpages⟩ := heapInit_oneRegion
  have hpos := free_ne_zero hinit
  have hone : (100#32 : U32) ≠ 0#32 := by decide
  obtain ⟨⟨p, s₁⟩, l₁, hrun₁, hsteps⟩ := hinv.kmalloc_steps hpos hone
  obtain ⟨p', s₁', hrun₁', hp⟩ :=
    hinv.kmalloc_ne_zero hpos hone ⟨_, List.mem_singleton_self _, fits_oneRegion hpages⟩
  obtain ⟨rfl, rfl⟩ := Prod.mk.inj (Option.some.inj (hrun₁.symm.trans hrun₁'))
  have hinv₁ := (hinv.steps hpos hsteps).1
  have hclient := (ClientRun.init rfl hrun).kmalloc 100#32 hrun₁
  rw [if_neg hp] at hinv₁
  rw [if_neg hp, if_neg hp] at hclient
  have hlive : p ∈ insert p (∅ : Set U32) := Set.mem_insert _ _
  have hsize : 5 < (field s₁.mem (p - headerSize) .size).toNat := by
    obtain ⟨c, hc, hcp, hle⟩ := hsteps.block.resolve_left hp
    dsimp only at hcp
    have hround : (alignUp 100#32 alignment).toNat = 104 := by decide
    rw [← hcp, hinv₁.field_size hc]
    bv_omega
  have hinvStored := hinv₁.store hlive hsize 42#8
  obtain ⟨⟨q, s₂⟩, l₂, hrun₂, hsteps₂⟩ := hinvStored.kmalloc_steps hpos hone
  have hfresh := hinvStored.fresh hpos hsteps₂
  have hlast := (hclient.store p hlive 5 hsize 42#8).kmalloc 100#32 hrun₂
  have hkept : p ∈ if q = 0#32 then insert p (∅ : Set U32) else insert q (insert p ∅) := by
    split_ifs
    · exact hlive
    · exact Set.mem_insert_of_mem _ hlive
  generalize hbytes : (if q = 0#32 then _ else _ : ClientBytes) = bytes at hlast
  have hsome : bytes p 5 = some 42#8 := by
    rw [← hbytes]
    split_ifs with hq
    · simp
    · have hne : p ≠ q := fun heq => (hfresh.resolve_left hq) (heq ▸ hlive)
      simp [Function.update_of_ne hne]
  exact ⟨start, s₂, _, bytes, p, hinit, hlast, hkept, hsome,
    clientBytes_kept hinit hlast p hkept 5 _ hsome⟩

end AlderKernel.Mm
