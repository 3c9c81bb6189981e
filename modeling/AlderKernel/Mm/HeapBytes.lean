import AlderKernel.Mm.HeapSpec

/-!
# The bytes of the heap

What the blocks of a list add up to, and how far `used_bytes` and `free_bytes` follow
it. A split takes a header out of the free bytes and a merge gives one back; the code
counts neither.
-/

namespace AlderKernel.Mm

open Machine

/-- The sizes of the blocks in use. -/
def usedSize (l : List Block) : ℕ := ((inUse l).map fun b => b.size.toNat).sum

/-- The sizes of the free blocks. -/
def freeSize (l : List Block) : ℕ := ((l.filter fun b => b.free).map fun b => b.size.toNat).sum

/-- The bytes of all headers and payloads. -/
def bytes (l : List Block) : ℕ := (l.map fun b => b.size.toNat + 16).sum

/-- The bytes that `kmalloc` takes of a block. -/
def Block.taken (size : U32) (b : Block) : U32 := if size + 32#32 ≤ b.size then size else b.size

/-- `kmalloc` splits a block for a request, when it takes one: the first block that fits, or the one
by which the heap grows, has room for a header and `MIN_SPLIT_SIZE` bytes more. -/
def Splits (l : List Block) (p : Pmm) (size : U32) : Prop :=
  (∃ b, l.find? (fun b => b.Fits size) = some b ∧ size + 32#32 ≤ b.size) ∨
  (∀ b ∈ l, ¬ b.Fits size) ∧ ∃ first got p', ObtainsPages p (needPages size) first got.toNat p' ∧
    size ≤ (newBlock first got).size ∧ size + 32#32 ≤ (newBlock first got).size

/-- `kfree` merges the block of a pointer with a neighbour. -/
def Merges (l : List Block) (ptr : U32) : Prop :=
  ∃ pre b post, l = pre ++ b :: post ∧ b.addr + headerSize = ptr ∧
    ((∃ c ∈ post.head?, ({ b with free := true } : Block).Mergeable c) ∨
      ∃ a ∈ pre.getLast?, a.Mergeable { b with free := true })

/-- The counters of the heap: `used_bytes` is what the blocks in use add up to, and `free_bytes`
exceeds what the free ones do by `excess`, modulo `2 ^ 32`. -/
structure Counts (s : Heap) (l : List Block) (excess : U32) : Prop where
  used : s.usedBytes = BitVec.ofNat 32 (usedSize l)
  free : s.freeBytes = BitVec.ofNat 32 (freeSize l) + excess

section

variable {l pre post : List Block} {a b c : Block} {size : U32}

/-- The payloads in use of two lists add up. -/
@[simp] theorem usedSize_append (l l' : List Block) :
    usedSize (l ++ l') = usedSize l + usedSize l' := by
  simp [usedSize, inUse]

/-- The free payloads of two lists add up. -/
@[simp] theorem freeSize_append (l l' : List Block) :
    freeSize (l ++ l') = freeSize l + freeSize l' := by
  simp [freeSize]

/-- The bytes of two lists add up. -/
@[simp] theorem bytes_append (l l' : List Block) : bytes (l ++ l') = bytes l + bytes l' := by
  simp [bytes]

/-- The bytes of a list are those of its first block and of the rest. -/
@[simp] theorem bytes_cons (b : Block) (l : List Block) :
    bytes (b :: l) = b.size.toNat + 16 + bytes l := by
  simp [bytes]

/-- The payload of the first block counts when it is in use. -/
theorem usedSize_cons (b : Block) (l : List Block) :
    usedSize (b :: l) = (if b.free then 0 else b.size.toNat) + usedSize l := by
  cases hb : b.free <;> simp [usedSize, inUse, hb]

/-- The payload of the first block counts when it is free. -/
theorem freeSize_cons (b : Block) (l : List Block) :
    freeSize (b :: l) = (if b.free then b.size.toNat else 0) + freeSize l := by
  cases hb : b.free <;> simp [freeSize, hb]

/-- Headers, free payloads and used payloads are all there is. -/
theorem bytes_eq (l : List Block) : bytes l = freeSize l + usedSize l + 16 * l.length := by
  induction l with
  | nil => rfl
  | cons b l ih =>
    rw [bytes_cons, freeSize_cons, usedSize_cons, List.length_cons, ih]
    split_ifs <;> omega

/-- The blocks of an arranged list lie one behind the other. -/
theorem Arranged.bytes_le (h : Arranged l) (lo : ℕ) (hlo : ∀ b ∈ l, lo ≤ b.addr.toNat) :
    l = [] ∨ lo + bytes l ≤ 2 ^ 27 := by
  induction l generalizing lo with
  | nil => exact .inl rfl
  | cons b l ih =>
    obtain ⟨htail, hbehind⟩ := h.tail
    have hb := hlo b (.head _)
    have hmax := h.bounded b (.head _)
    unfold Block.stop at hmax
    refine .inr ?_
    rw [bytes_cons]
    rcases ih htail b.stop hbehind with rfl | hle
    · change lo + (b.size.toNat + 16 + 0) ≤ _
      omega
    · unfold Block.stop at hle
      omega

/-- The payloads of an arranged list fit the managed memory. -/
theorem Arranged.sizes_lt (h : Arranged l) : freeSize l + usedSize l < 2 ^ 32 := by
  rcases h.bytes_le 0 fun _ _ => Nat.zero_le _ with rfl | hle
  · decide
  · have hbytes := bytes_eq l
    omega

/-- Taking a block in moves its header between the payloads. -/
theorem bytes_mergeNext (h : Arranged (pre ++ b :: post)) :
    bytes (mergeNext b post) = bytes (b :: post) := by
  cases post with
  | nil => rfl
  | cons c post =>
    rw [mergeNext_cons]
    split_ifs with hmerge
    · have hmeet := hmerge.2.2
      have hmax := h.bounded c (by simp)
      unfold Block.stop at hmeet hmax
      have hsize : (b.size + (16#32 + c.size)).toNat = b.size.toNat + 16 + c.size.toNat := by
        bv_omega
      simp only [bytes_cons, Block.absorb, hsize]
      omega
    · rfl

/-- Giving a block back keeps the bytes. -/
theorem bytes_release (h : Arranged (pre ++ b :: post)) :
    bytes (release pre b post) = bytes (pre ++ b :: post) := by
  have hmark : Arranged (pre ++ { b with free := true } :: post) :=
    (arranged_mark _ _ _ true).1.mpr h
  have hnext := bytes_mergeNext hmark
  have harr := (arranged_mergeNext hmark).1
  have hb : bytes ({ b with free := true } :: post) = bytes (b :: post) := by simp
  unfold release
  rcases List.eq_nil_or_concat pre with rfl | ⟨pre, a, rfl⟩
  · exact hnext.trans hb
  · rw [List.concat_eq_append] at *
    have harr' : Arranged (pre ++ a :: mergeNext { b with free := true } post) := by
      simpa using harr
    rw [mergePrev_concat, bytes_append, bytes_mergeNext harr', bytes_cons, hnext, hb]
    simp only [List.append_assoc, List.singleton_append, bytes_append, bytes_cons]

/-- Giving a block back leaves the other blocks in use. -/
theorem usedSize_release : usedSize (release pre b post) = usedSize pre + usedSize post := by
  rw [usedSize, inUse_release, List.map_append, List.sum_append]
  rfl

/-- Joining with the next block shortens the list by one. -/
theorem length_mergeNext (b : Block) (post : List Block) :
    (mergeNext b post).length + (if ∃ c ∈ post.head?, b.Mergeable c then 1 else 0) =
      post.length + 1 := by
  cases post with
  | nil => simp [mergeNext]
  | cons c post =>
    rw [mergeNext_cons]
    by_cases hmerge : b.Mergeable c
    · simp [hmerge]
    · simp [hmerge]

/-- Giving a block back shortens the list by one for each neighbour that it is joined with. -/
theorem length_release (pre : List Block) (b : Block) (post : List Block) :
    ∃ k, (release pre b post).length + k = (pre ++ b :: post).length ∧ k ≤ 2 ∧
      (k = 0 ↔ ¬ ((∃ c ∈ post.head?, ({ b with free := true } : Block).Mergeable c) ∨
        ∃ a ∈ pre.getLast?, a.Mergeable { b with free := true })) := by
  have hnext := length_mergeNext { b with free := true } post
  obtain ⟨c, post', hcons, hc, hcfree⟩ := mergeNext_eq_cons { b with free := true } post
  unfold release
  rcases List.eq_nil_or_concat pre with rfl | ⟨pre, a, rfl⟩
  · refine ⟨_, hnext, by split_ifs <;> omega, ?_⟩
    simp
  · have hmerge : a.Mergeable c ↔ a.Mergeable { b with free := true } := by
      unfold Block.Mergeable
      rw [hc, hcfree]
    have hprev := length_mergeNext a (mergeNext { b with free := true } post)
    rw [List.concat_eq_append, mergePrev_concat]
    refine ⟨(if ∃ c ∈ post.head?, ({ b with free := true } : Block).Mergeable c then 1 else 0) +
      (if ∃ c ∈ (mergeNext { b with free := true } post).head?, a.Mergeable c then 1 else 0),
      ?_, by split_ifs <;> omega, ?_⟩
    · simp only [List.length_append, List.length_cons, List.length_nil]
      omega
    · rw [hcons]
      simp only [List.head?_cons, Option.mem_some_iff, exists_eq_left', hmerge,
        List.getLast?_concat, not_or]
      split_ifs <;> simp_all

/-- The parts of a block that is taken: the front is in use, the rest is free. -/
theorem carve_eq (size : U32) (b : Block) :
    b.carve size = ⟨b.addr, b.taken size, false⟩ ::
      if size + 32#32 ≤ b.size then [b.leftover size] else [] := by
  unfold Block.carve Block.taken
  split_ifs <;> rfl

/-- The payload of the front part and of the rest. -/
theorem size_carve (hsize : size ≤ b.size) (hb : b.stop ≤ 2 ^ 27) :
    usedSize (b.carve size) = (b.taken size).toNat ∧
      freeSize (b.carve size) + (b.taken size).toNat +
        (if size + 32#32 ≤ b.size then 16 else 0) = b.size.toNat := by
  unfold Block.stop at hb
  rw [carve_eq]
  unfold Block.taken
  by_cases hsplit : size + 32#32 ≤ b.size
  · have hroom : (b.size - size - 16#32).toNat + size.toNat + 16 = b.size.toNat := by bv_omega
    simpa only [if_pos hsplit, usedSize, freeSize, inUse, Block.leftover, List.filter_cons,
      List.filter_nil, Bool.not_false, Bool.not_true, if_true, if_false, Bool.false_eq_true,
      List.map_cons, List.map_nil, List.sum_cons, List.sum_nil, Nat.add_zero, true_and] using hroom
  · simp [hsplit, usedSize, freeSize, inUse]

end

section

variable {s : Heap} {l pre post : List Block} {b : Block} {size excess : U32}

/-- Taking a block moves what it takes from one counter to the other. -/
theorem takeBlock_moves (hrepresents : Represents s (pre ++ b :: post))
    (harr : Arranged (pre ++ b :: post)) (hfits : b.Fits size) :
    (takeBlock b.addr size s).2.usedBytes = s.usedBytes + b.taken size ∧
      (takeBlock b.addr size s).2.freeBytes = s.freeBytes - b.taken size := by
  have hlinked := (takeBlock_spec hrepresents harr hfits).1.linked
  rw [carve_eq, List.append_assoc, List.cons_append] at hlinked
  have htaken : field (takeBlock b.addr size s).2.mem b.addr .size = b.taken size :=
    (linked_middle.mp hlinked).2.1.size
  rw [← htaken]
  exact ⟨rfl, rfl⟩

/-- The counters after a block of the list is taken. -/
theorem Counts.takeBlock (h : Counts s (pre ++ b :: post) excess)
    (hrepresents : Represents s (pre ++ b :: post)) (harr : Arranged (pre ++ b :: post))
    (hfits : b.Fits size) :
    Counts (takeBlock b.addr size s).2 (pre ++ b.carve size ++ post)
      (excess + if size + 32#32 ≤ b.size then 16#32 else 0#32) := by
  obtain ⟨hmovedUsed, hmovedFree⟩ := takeBlock_moves hrepresents harr hfits
  obtain ⟨hused, hfree⟩ := size_carve hfits.2 (harr.bounded b (by simp))
  have hle : (b.taken size).toNat ≤ b.size.toNat := by omega
  constructor
  · rw [hmovedUsed, h.used]
    simp only [usedSize_append, usedSize_cons, hfits.1, if_true, hused]
    bv_omega
  · rw [hmovedFree, h.free]
    simp only [freeSize_append, freeSize_cons, hfits.1, if_true]
    generalize freeSize (b.carve size) = rest at *
    split_ifs at hfree ⊢ <;> bv_omega

/-- The counters after the heap has grown by a block. -/
theorem Counts.extend {s' : Heap} (h : Counts s l excess) (hused : s'.usedBytes = s.usedBytes)
    (hcount : s'.freeBytes = s.freeBytes + b.size) (hb : b.free = true) :
    Counts s' (l ++ [b]) excess := by
  have hused' : usedSize [b] = 0 := by simp [usedSize, inUse, hb]
  have hfree : freeSize [b] = b.size.toNat := by simp [freeSize, hb]
  constructor
  · rw [hused, h.used, usedSize_append, hused', Nat.add_zero]
  · rw [hcount, h.free, freeSize_append, hfree]
    bv_omega

/-- A request splits the first block that fits exactly when that has room for another block. -/
theorem splits_found (hfirst : ∀ a ∈ pre, ¬ a.Fits size) (hfits : b.Fits size) (p : Pmm) :
    Splits (pre ++ b :: post) p size ↔ size + 32#32 ≤ b.size := by
  have hfind : (pre ++ b :: post).find? (fun b => b.Fits size) = some b :=
    List.find?_eq_some_iff_append.mpr ⟨by simpa using hfits, pre, post, rfl, by simpa using hfirst⟩
  constructor
  · rintro (⟨c, hc, hsplit⟩ | ⟨hnone, -⟩)
    · rw [hfind] at hc
      obtain rfl := Option.some.inj hc
      exact hsplit
    · exact absurd hfits (hnone b (by simp))
  · exact fun hsplit => .inl ⟨b, hfind, hsplit⟩

/-- A request for which the heap has to grow splits the new block exactly when that is big enough
and has room for another block. -/
theorem splits_grown {p p' : Pmm} {first got : U32} (hnone : ∀ a ∈ l, ¬ a.Fits size)
    (hpages : ObtainsPages p (needPages size) first got.toNat p') :
    Splits l p size ↔ size ≤ (newBlock first got).size ∧
      size + 32#32 ≤ (newBlock first got).size := by
  constructor
  · rintro (⟨c, hc, -⟩ | ⟨-, first', got', p'', hpages', hfit⟩)
    · exact absurd (by simpa using List.find?_some hc) (hnone c (List.mem_of_find?_eq_some hc))
    · obtain ⟨rfl, hgot⟩ := hpages.unique hpages'
      obtain rfl := BitVec.eq_of_toNat_eq hgot
      exact hfit
  · exact fun hfit => .inr ⟨hnone, first, got, p', hpages, hfit⟩

/-- Without a free page no new block is split. -/
theorem not_splits_noPage {p : Pmm} (hnone : ∀ a ∈ l, ¬ a.Fits size) (hpages : ∀ q, ¬ p.Free q) :
    ¬ Splits l p size := by
  rintro (⟨c, hc, -⟩ | ⟨-, first, got, p', hobtains, -⟩)
  · exact absurd (by simpa using List.find?_some hc) (hnone c (List.mem_of_find?_eq_some hc))
  · exact hpages first (hobtains.run.free first le_rfl (Nat.lt_add_of_pos_right hobtains.pos))

/-- A split leaves `free_bytes` too high by a header; otherwise `kmalloc` counts exactly. -/
theorem KmallocSteps.counts {r : U32 × Heap} {l' : List Block}
    (hsteps : KmallocSteps s l size r l') (h : Counts s l excess) (hrepresents : Represents s l)
    (harr : Arranged l) (hpos : ∀ q, s.pmm.Free q → q ≠ 0#32)
    (habove : ∀ b ∈ l, ∀ q, s.pmm.Free q → b.stop ≤ q.toNat * 4096) :
    (Splits l s.pmm size → Counts r.2 l' (excess + 16#32)) ∧
      (¬ Splits l s.pmm size → Counts r.2 l' excess) := by
  cases hsteps with
  | found pre b post hl hfirst hfits =>
    subst hl
    have hcounts := h.takeBlock hrepresents harr hfits
    rw [splits_found hfirst hfits]
    refine ⟨fun hsplit => ?_, fun hsplit => ?_⟩
    · rwa [if_pos hsplit] at hcounts
    · rwa [if_neg hsplit, BitVec.add_zero] at hcounts
  | grown first got s' hnone hpages hrepresents' hused hcount hsize =>
    have harr' := (arranged_newBlock harr hpos habove hpages).1
    have hcounts := (h.extend hused hcount rfl).takeBlock hrepresents' harr' ⟨rfl, hsize⟩
    rw [List.append_nil] at hcounts
    rw [splits_grown hnone hpages, and_iff_right hsize]
    refine ⟨fun hsplit => ?_, fun hsplit => ?_⟩
    · rwa [if_pos hsplit] at hcounts
    · rwa [if_neg hsplit, BitVec.add_zero] at hcounts
  | tooSmall first got s' hnone hpages hrepresents' hused hcount hsize =>
    rw [splits_grown hnone hpages]
    exact ⟨fun hsplit => absurd hsplit.1 (BitVec.not_le.mpr hsize),
      fun _ => h.extend hused hcount rfl⟩
  | noPage hnone hpages =>
    exact ⟨fun hsplit => absurd hsplit (not_splits_noPage hnone hpages), fun _ => h⟩

/-- `kfree` moves the size of the block from one counter to the other. -/
theorem kfree_moves (hrepresents : Represents s (pre ++ b :: post))
    (harr : Arranged (pre ++ b :: post)) :
    (kfree (b.addr + headerSize) s).usedBytes = s.usedBytes - b.size ∧
      (kfree (b.addr + headerSize) s).freeBytes = s.freeBytes + b.size := by
  have hptr : b.addr + headerSize ≠ 0#32 := by
    have hmax := harr.bounded b (by simp)
    unfold Block.stop at hmax
    unfold headerSize
    bv_omega
  have hblock : b.addr + headerSize - headerSize = b.addr := BitVec.add_sub_cancel _ _
  have hfreed : field (setField b.addr .free 1#32 s.mem) b.addr .size = b.size :=
    (linked_middle.mp (hrepresents.linked.mark harr true)).2.1.size
  unfold kfree
  rw [if_neg hptr, hblock]
  dsimp only
  rw [hfreed]
  exact ⟨rfl, rfl⟩

/-- Each block that is joined with a freed one leaves `free_bytes` too low by a header. -/
theorem Counts.kfree (h : Counts s (pre ++ b :: post) excess)
    (hrepresents : Represents s (pre ++ b :: post)) (harr : Arranged (pre ++ b :: post))
    (hb : b.free = false) {k : ℕ}
    (hk : (release pre b post).length + k = (pre ++ b :: post).length) :
    Counts (kfree (b.addr + headerSize) s) (release pre b post)
      (excess - BitVec.ofNat 32 (16 * k)) := by
  obtain ⟨hmovedUsed, hmovedFree⟩ := kfree_moves hrepresents harr
  have hused : usedSize (release pre b post) + b.size.toNat = usedSize (pre ++ b :: post) := by
    rw [usedSize_release, usedSize_append, usedSize_cons, hb]
    simp
    omega
  have hbytes := bytes_release harr
  rw [bytes_eq, bytes_eq (pre ++ b :: post)] at hbytes
  have hfree : freeSize (release pre b post) =
      freeSize (pre ++ b :: post) + b.size.toNat + 16 * k := by omega
  constructor
  · rw [hmovedUsed, h.used, ← hused]
    bv_omega
  · rw [hmovedFree, h.free, hfree]
    generalize freeSize (pre ++ b :: post) = before
    bv_omega

/-- The counter is exact when it exceeds the free payloads by nothing. -/
theorem Counts.exact_iff (h : Counts s l excess) (harr : Arranged l) :
    s.freeBytes.toNat = freeSize l ↔ excess = 0#32 := by
  have hlt := harr.sizes_lt
  rw [h.free]
  constructor
  · intro hexact
    bv_omega
  · rintro rfl
    bv_omega

end

end AlderKernel.Mm
