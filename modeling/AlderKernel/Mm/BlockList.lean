import AlderKernel.Machine.Memory
import AlderKernel.Order.Segments

/-!
# Lists of heap blocks

The heap as a list of blocks, without memory: what splitting, marking, joining and
appending blocks do to the list. A block's header and payload are one segment of
addresses, so the order and the coverage of the list follow from the rules for segments.
-/

namespace AlderKernel.Mm

open Machine Segments

/-- A block: the address of its header, the size of its payload, and whether it is free. -/
structure Block where
  addr : U32
  size : U32
  free : Bool
  deriving DecidableEq

namespace Block

/-- The address after the payload. -/
def stop (b : Block) : ℕ := b.addr.toNat + 16 + b.size.toNat

/-- The addresses of header and payload. -/
def segment (b : Block) : Segment ℕ := ⟨b.addr.toNat, b.stop, by unfold stop; omega⟩

/-- A block that `kmalloc` may take for a request of `size` bytes. -/
def Fits (size : U32) (b : Block) : Prop := b.free = true ∧ size ≤ b.size

instance (size : U32) (b : Block) : Decidable (b.Fits size) := inferInstanceAs (Decidable (_ ∧ _))

/-- Two free blocks that meet. -/
def Mergeable (a c : Block) : Prop := a.free = true ∧ c.free = true ∧ a.stop = c.addr.toNat

instance (a c : Block) : Decidable (a.Mergeable c) := inferInstanceAs (Decidable (_ ∧ _ ∧ _))

/-- The block `a` with the following block `c` taken in. -/
def absorb (a c : Block) : Block := ⟨a.addr, a.size + (16#32 + c.size), a.free⟩

/-- What is left when `size` bytes and a header are cut off the front of a payload. -/
def leftover (size : U32) (b : Block) : Block :=
  ⟨b.addr + 16#32 + size, b.size - size - 16#32, true⟩

/-- A block in use, with the leftover split off where it is big enough. -/
def carve (size : U32) (b : Block) : List Block :=
  if size + 32#32 ≤ b.size then [⟨b.addr, size, false⟩, b.leftover size]
  else [⟨b.addr, b.size, false⟩]

end Block

/-- A list whose blocks follow one another in the managed memory, above address 0. -/
structure Arranged (l : List Block) : Prop where
  ascending : Ascending (l.map Block.segment)
  positive : ∀ b ∈ l, 0 < b.addr.toNat
  bounded : ∀ b ∈ l, b.stop ≤ 2 ^ 27

/-- The blocks in use. -/
def inUse (l : List Block) : List Block := l.filter fun b => !b.free

/-- The addresses of all headers and payloads. -/
def occupied (l : List Block) : Set ℕ := covered (l.map Block.segment)

/-- The block `b` in front of a list, joined with the first block of it where both are
free and meet. -/
def mergeNext (b : Block) : List Block → List Block
  | [] => [b]
  | c :: post => if b.Mergeable c then b.absorb c :: post else b :: c :: post

/-- A list behind the blocks `pre`, whose last one is joined with the first of the list where
both are free and meet. -/
def mergePrev (pre l : List Block) : List Block :=
  match pre.getLast? with
  | none => l
  | some a => pre.dropLast ++ mergeNext a l

/-- The list after the block `b` between `pre` and `post` is given back. -/
def release (pre : List Block) (b : Block) (post : List Block) : List Block :=
  mergePrev pre (mergeNext { b with free := true } post)

section

variable {pre post l : List Block} {a b c : Block} {size : U32}

/-- A block with a next one is joined with it when the two are free and meet. -/
theorem mergeNext_cons :
    mergeNext b (c :: post) = if b.Mergeable c then b.absorb c :: post else b :: c :: post := rfl

/-- Without a block in front nothing is joined. -/
@[simp] theorem mergePrev_nil : mergePrev [] l = l := rfl

/-- The last block in front is the one that may be joined. -/
@[simp] theorem mergePrev_concat : mergePrev (pre ++ [a]) l = pre ++ mergeNext a l := by
  simp [mergePrev]

/-- Taking in the next block joins the two segments. -/
theorem segment_absorb (h : a.stop = c.addr.toNat) (hc : c.stop ≤ 2 ^ 27) :
    (a.absorb c).segment = a.segment.join c.segment h := by
  unfold Block.stop at h hc
  have hsize : (a.size + (16#32 + c.size)).toNat = a.size.toNat + 16 + c.size.toNat := by bv_omega
  refine Segment.ext rfl ?_
  change a.addr.toNat + 16 + (a.size + (16#32 + c.size)).toNat = c.stop
  unfold Block.stop
  omega

/-- A split cuts the segment of the block. -/
theorem segment_split (h : size + 32#32 ≤ b.size) (hsize : size ≤ b.size) (hb : b.stop ≤ 2 ^ 27) :
    ∃ hmeet, b.segment =
      (⟨b.addr, size, false⟩ : Block).segment.join (b.leftover size).segment hmeet := by
  unfold Block.stop at hb
  have haddr : (b.addr + 16#32 + size).toNat = b.addr.toNat + 16 + size.toNat := by bv_omega
  have hleft : (b.size - size - 16#32).toNat = b.size.toNat - size.toNat - 16 := by bv_omega
  have hroom : size.toNat + 32 ≤ b.size.toNat := by bv_omega
  refine ⟨haddr.symm, Segment.ext rfl ?_⟩
  change b.addr.toNat + 16 + b.size.toNat =
    (b.addr + 16#32 + size).toNat + 16 + (b.size - size - 16#32).toNat
  omega

/-- Whether a list is arranged depends on its segments only. -/
theorem arranged_iff : Arranged l ↔ Ascending (l.map Block.segment) ∧
    ∀ s ∈ l.map Block.segment, 0 < s.lo ∧ s.hi ≤ 2 ^ 27 := by
  rw [List.forall_mem_map]
  constructor
  · intro h
    exact ⟨h.ascending, fun b hb => ⟨h.positive b hb, h.bounded b hb⟩⟩
  · rintro ⟨hasc, hbounds⟩
    exact ⟨hasc, fun b hb => (hbounds b hb).1, fun b hb => (hbounds b hb).2⟩

/-- A block whose segment is the join of two others may be replaced by them, and back. -/
theorem arranged_join (pre post : List Block) {whole left right : Block}
    (hmeet : left.segment.hi = right.segment.lo)
    (hwhole : whole.segment = left.segment.join right.segment hmeet) :
    (Arranged (pre ++ whole :: post) ↔ Arranged (pre ++ left :: right :: post)) ∧
      occupied (pre ++ whole :: post) = occupied (pre ++ left :: right :: post) := by
  have hlo : whole.segment.lo = left.segment.lo := congrArg (fun s => s.lo) hwhole
  have hhi : whole.segment.hi = right.segment.hi := congrArg (fun s => s.hi) hwhole
  have hleft := left.segment.lo_le_hi
  have hright := right.segment.lo_le_hi
  constructor
  · simp only [arranged_iff, List.map_append, List.map_cons, List.forall_mem_append,
      List.forall_mem_cons]
    rw [hlo, hhi, hwhole, ascending_join]
    refine and_congr_right fun _ => and_congr_right fun _ => ?_
    constructor
    · rintro ⟨⟨hpos, hmax⟩, hpost⟩
      exact ⟨⟨hpos, by omega⟩, ⟨by omega, hmax⟩, hpost⟩
    · rintro ⟨⟨hpos, -⟩, ⟨-, hmax⟩, hpost⟩
      exact ⟨⟨hpos, hmax⟩, hpost⟩
  · simp only [occupied, List.map_append, List.map_cons]
    rw [hwhole, covered_join]

/-- Marking a block leaves the segments alone. -/
theorem arranged_mark (pre post : List Block) (b : Block) (free : Bool) :
    (Arranged (pre ++ { b with free } :: post) ↔ Arranged (pre ++ b :: post)) ∧
      occupied (pre ++ { b with free } :: post) = occupied (pre ++ b :: post) := by
  have hsegments : (pre ++ { b with free } :: post).map Block.segment =
      (pre ++ b :: post).map Block.segment := by
    simp only [List.map_append, List.map_cons]
    rfl
  exact ⟨by rw [arranged_iff, arranged_iff, hsegments], by rw [occupied, occupied, hsegments]⟩

/-- Joining two blocks that meet keeps the list arranged, over the same addresses. -/
theorem arranged_absorb (h : Arranged (pre ++ a :: c :: post)) (hmeet : a.stop = c.addr.toNat) :
    Arranged (pre ++ a.absorb c :: post) ∧
      occupied (pre ++ a.absorb c :: post) = occupied (pre ++ a :: c :: post) := by
  obtain ⟨hiff, hoccupied⟩ := arranged_join pre post hmeet
    (segment_absorb hmeet (h.bounded c (by simp)))
  exact ⟨hiff.mpr h, hoccupied⟩

/-- Splitting a block and marking its front as used keeps the list arranged, over the same
addresses. -/
theorem arranged_carve (h : Arranged (pre ++ b :: post)) (hsize : size ≤ b.size) :
    Arranged (pre ++ b.carve size ++ post) ∧
      occupied (pre ++ b.carve size ++ post) = occupied (pre ++ b :: post) := by
  have hb : b.stop ≤ 2 ^ 27 := h.bounded b (by simp)
  unfold Block.carve
  split_ifs with hsplit
  · obtain ⟨hmeet, hsegment⟩ := segment_split hsplit hsize hb
    obtain ⟨hiff, hoccupied⟩ := arranged_join pre post hmeet hsegment
    simp only [List.append_assoc, List.cons_append, List.nil_append]
    exact ⟨hiff.mp h, hoccupied.symm⟩
  · simp only [List.append_assoc, List.cons_append, List.nil_append]
    obtain ⟨hiff, hoccupied⟩ := arranged_mark pre post b false
    exact ⟨hiff.mpr h, hoccupied⟩

/-- Joining a block with the next one, where possible, keeps the list arranged. -/
theorem arranged_mergeNext (h : Arranged (pre ++ b :: post)) :
    Arranged (pre ++ mergeNext b post) ∧
      occupied (pre ++ mergeNext b post) = occupied (pre ++ b :: post) := by
  cases post with
  | nil => exact ⟨h, rfl⟩
  | cons c post =>
    rw [mergeNext_cons]
    split_ifs with hmerge
    · exact arranged_absorb h hmerge.2.2
    · exact ⟨h, rfl⟩

/-- Giving a block back keeps the list arranged, over the same addresses. -/
theorem arranged_release (h : Arranged (pre ++ b :: post)) :
    Arranged (release pre b post) ∧
      occupied (release pre b post) = occupied (pre ++ b :: post) := by
  obtain ⟨hmark, hmarked⟩ := arranged_mark pre post b true
  obtain ⟨hnext, hoccupied⟩ := arranged_mergeNext (hmark.mpr h)
  rcases List.eq_nil_or_concat pre with rfl | ⟨pre, a, rfl⟩
  · exact ⟨hnext, hoccupied.trans hmarked⟩
  · rw [List.concat_eq_append] at *
    unfold release
    rw [mergePrev_concat]
    have hprev : Arranged (pre ++ a :: mergeNext { b with free := true } post) := by
      simpa using hnext
    refine ⟨(arranged_mergeNext hprev).1, (arranged_mergeNext hprev).2.trans ?_⟩
    simpa using hoccupied.trans hmarked

/-- A block above all others may be appended. -/
theorem arranged_concat (h : Arranged l) (hpos : 0 < b.addr.toNat) (hmax : b.stop ≤ 2 ^ 27)
    (habove : ∀ c ∈ l, c.stop ≤ b.addr.toNat) :
    Arranged (l ++ [b]) ∧ occupied (l ++ [b]) = occupied l ∪ Set.Ico b.addr.toNat b.stop := by
  constructor
  · rw [arranged_iff] at h ⊢
    simp only [List.map_append, List.map_cons, List.map_nil, List.forall_mem_append]
    refine ⟨h.1.concat ?_, h.2, ?_⟩
    · rw [List.forall_mem_map]
      exact habove
    · rintro s (_ | ⟨_, ⟨⟩⟩)
      exact ⟨hpos, hmax⟩
  · have hlast : covered [b.segment] = b.segment.points := by
      simp [covered]
    simp only [occupied, List.map_append, List.map_cons, List.map_nil]
    rw [covered_append, hlast]
    rfl

/-- A carved block is in use. -/
theorem inUse_carve (size : U32) (b : Block) :
    ∃ n, inUse (b.carve size) = [⟨b.addr, n, false⟩] := by
  unfold Block.carve
  split_ifs
  · exact ⟨size, rfl⟩
  · exact ⟨b.size, rfl⟩

/-- Joining free blocks touches no block in use. -/
theorem inUse_mergeNext : inUse (mergeNext b post) = inUse (b :: post) := by
  cases post with
  | nil => rfl
  | cons c post =>
    rw [mergeNext_cons]
    split_ifs with hmerge
    · obtain ⟨hb, hc, -⟩ := hmerge
      simp [inUse, Block.absorb, hb, hc]
    · rfl

/-- Giving a block back touches no other block in use. -/
theorem inUse_release : inUse (release pre b post) = inUse pre ++ inUse post := by
  have hnext : inUse (mergeNext { b with free := true } post) = inUse post := by
    rw [inUse_mergeNext]
    rfl
  rcases List.eq_nil_or_concat pre with rfl | ⟨pre, a, rfl⟩
  · exact hnext
  · rw [List.concat_eq_append] at *
    unfold release
    rw [mergePrev_concat]
    have happend (l l' : List Block) : inUse (l ++ l') = inUse l ++ inUse l' :=
      List.filter_append l l'
    rw [happend, inUse_mergeNext, ← List.singleton_append, happend, hnext]
    simp [inUse]

end

end AlderKernel.Mm
