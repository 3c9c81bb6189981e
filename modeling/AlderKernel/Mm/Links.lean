import AlderKernel.Mm.BlockList
import AlderKernel.Mm.Heap

/-!
# The block list in memory

A list of blocks is represented by a memory when each header holds the block's
data and the addresses of its two neighbours. Each writing part of `heap.c` is
matched with the operation on lists that it carries out.
-/

namespace AlderKernel.Mm

open Machine

/-- The headers at two addresses share no byte. -/
abbrev HeadersApart (a b : U32) : Prop := Apart a 16 b 16

section

variable {m : Memory} {a b v : U32} {f g : HeapField}

/-- Fields lie in their header. -/
theorem HeapField.offset_le (f : HeapField) : f.offset.toNat ≤ 12 := by
  cases f <;> decide

/-- A field that is set is read back. -/
@[simp] theorem field_setField_self : field (setField a f v m) a f = v :=
  Memory.load32_store32_self _ _ _

/-- Setting a field of a header keeps its other fields. -/
@[simp] theorem field_setField_of_ne (h : f ≠ g) :
    field (setField a f v m) a g = field m a g := by
  refine Memory.load32_store32_of_apart ?_
  unfold Apart
  cases f <;> cases g <;> first | exact absurd rfl h | (simp only [HeapField.offset]; bv_omega)

/-- Writing to one header leaves the others alone. -/
theorem field_setField_of_apart (h : HeadersApart a b) :
    field (setField a f v m) b g = field m b g := by
  refine Memory.load32_store32_of_apart ?_
  have hf := f.offset_le
  have hg := g.offset_le
  unfold HeadersApart Apart at *
  bv_omega

end

/-- The header of a block between the given neighbours. -/
structure HeaderAt (m : Memory) (b : Block) (prev next : U32) : Prop where
  size : field m b.addr .size = b.size
  free : field m b.addr .free = if b.free then 1#32 else 0#32
  next : field m b.addr .next = next
  prev : field m b.addr .prev = prev

/-- The address of the first block of a list, or of what follows the list. -/
def firstAddr : List Block → U32 → U32
  | [], next => next
  | b :: _, _ => b.addr

/-- The address of the last block of a list, or of what precedes the list. -/
def lastAddr : U32 → List Block → U32
  | prev, [] => prev
  | _, b :: l => lastAddr b.addr l

/-- The blocks of the list are linked in memory, between `prev` and `next`. -/
def Linked (m : Memory) : U32 → List Block → U32 → Prop
  | _, [], _ => True
  | prev, b :: l, next => HeaderAt m b prev (firstAddr l next) ∧ Linked m b.addr l next

section

variable {m m' : Memory} {l l' pre post : List Block} {b : Block} {prev next a v : U32}
  {f : HeapField}

/-- The first address of two lists in a row. -/
theorem firstAddr_append : firstAddr (l ++ l') next = firstAddr l (firstAddr l' next) := by
  cases l <;> rfl

/-- The first address of a list around a block. -/
theorem firstAddr_middle : firstAddr (pre ++ b :: post) next = firstAddr pre b.addr :=
  firstAddr_append

/-- Two lists in a row. -/
theorem linked_append : Linked m prev (l ++ l') next ↔
    Linked m prev l (firstAddr l' next) ∧ Linked m (lastAddr prev l) l' next := by
  induction l generalizing prev with
  | nil => simp [Linked, lastAddr]
  | cons b l ih => simp only [List.cons_append, Linked, lastAddr, ih, firstAddr_append, and_assoc]

/-- A block between two lists. -/
theorem linked_middle : Linked m prev (pre ++ b :: post) next ↔
    Linked m prev pre b.addr ∧ HeaderAt m b (lastAddr prev pre) (firstAddr post next) ∧
      Linked m b.addr post next := linked_append

/-- The header of a block is represented when its fields are the same. -/
theorem HeaderAt.congr (h : HeaderAt m b prev next)
    (hsame : ∀ f, field m' b.addr f = field m b.addr f) : HeaderAt m' b prev next :=
  ⟨(hsame _).trans h.size, (hsame _).trans h.free, (hsame _).trans h.next, (hsame _).trans h.prev⟩

/-- A list stays linked when its headers are the same. -/
theorem Linked.congr (h : Linked m prev l next)
    (hsame : ∀ b ∈ l, ∀ f, field m' b.addr f = field m b.addr f) : Linked m' prev l next := by
  induction l generalizing prev with
  | nil => trivial
  | cons b l ih =>
    exact ⟨h.1.congr (hsame b (.head _)), ih h.2 fun c hc => hsame c (.tail _ hc)⟩

/-- A write to a header outside the list leaves it linked. -/
theorem Linked.setField (h : Linked m prev l next) (hapart : ∀ b ∈ l, HeadersApart a b.addr) :
    Linked (setField a f v m) prev l next :=
  h.congr fun b hb _ => field_setField_of_apart (hapart b hb)

/-- Blocks of an arranged list have their headers apart. -/
theorem Arranged.headersApart (h : Arranged l) :
    l.Pairwise fun b c => HeadersApart b.addr c.addr := by
  have hasc := List.pairwise_map.mp h.ascending
  refine hasc.imp_of_mem fun {b c} _ hc hle => ?_
  have hmax := h.bounded c hc
  change b.addr.toNat + 16 + b.size.toNat ≤ c.addr.toNat at hle
  unfold Block.stop at hmax
  exact apart_of_le (by decide) (by omega) (by omega)

/-- A block of an arranged list has its header apart from those of the others. -/
theorem Arranged.middle_apart (h : Arranged (pre ++ b :: post)) :
    (∀ c ∈ pre, HeadersApart b.addr c.addr) ∧ ∀ c ∈ post, HeadersApart b.addr c.addr := by
  have hapart := h.headersApart
  rw [List.pairwise_append, List.pairwise_cons] at hapart
  exact ⟨fun c hc => (hapart.2.2 c hc b (.head _)).symm, hapart.2.1.1⟩

/-- The address of the first block of a list is the address of one of its blocks, or 0. -/
theorem firstAddr_mem : firstAddr l 0#32 = 0#32 ∨ ∃ b ∈ l, firstAddr l 0#32 = b.addr := by
  cases l with
  | nil => exact .inl rfl
  | cons b l => exact .inr ⟨b, .head _, rfl⟩

/-- Writing the `prev` link of the next block leaves headers apart from that block alone. -/
theorem field_setPrevOf {x : U32} (hapart : ∀ b ∈ l, HeadersApart b.addr x) :
    field (setPrevOf (firstAddr l 0#32) v m) x f = field m x f := by
  unfold setPrevOf
  split_ifs with hnext
  · obtain hzero | ⟨b, hb, haddr⟩ := firstAddr_mem (l := l)
    · exact absurd hzero hnext
    · rw [haddr]
      exact field_setField_of_apart (hapart b hb)
  · rfl

/-- Writing the `prev` link of the next block links the list to another block in front. -/
theorem Linked.setPrevOf (h : Linked m prev l 0#32)
    (hapart : l.Pairwise fun b c => HeadersApart b.addr c.addr)
    (hpos : ∀ b ∈ l, 0 < b.addr.toNat) :
    Linked (setPrevOf (firstAddr l 0#32) v m) v l 0#32 := by
  cases l with
  | nil => trivial
  | cons b l =>
    have hb := hpos b (.head _)
    have hnext : firstAddr (b :: l) 0#32 ≠ 0#32 := by
      change b.addr ≠ 0#32
      bv_omega
    unfold Mm.setPrevOf
    rw [if_pos hnext]
    have hpost := (List.pairwise_cons.mp hapart).1
    refine ⟨⟨?_, ?_, ?_, ?_⟩, h.2.setField hpost⟩
    · exact (field_setField_of_ne (by decide)).trans h.1.size
    · exact (field_setField_of_ne (by decide)).trans h.1.free
    · exact (field_setField_of_ne (by decide)).trans h.1.next
    · exact field_setField_self

/-- Marking a block. -/
theorem Linked.mark (h : Linked m prev (pre ++ b :: post) next)
    (harr : Arranged (pre ++ b :: post)) (free : Bool) :
    Linked (Mm.setField b.addr .free (if free then 1#32 else 0#32) m) prev
      (pre ++ { b with free } :: post) next := by
  obtain ⟨hpre, hb, hpost⟩ := linked_middle.mp h
  obtain ⟨hprea, hposta⟩ := harr.middle_apart
  refine linked_middle.mpr ⟨hpre.setField hprea, ⟨?_, ?_, ?_, ?_⟩, hpost.setField hposta⟩
  · exact (field_setField_of_ne (by decide)).trans hb.size
  · exact field_setField_self
  · exact (field_setField_of_ne (by decide)).trans hb.next
  · exact (field_setField_of_ne (by decide)).trans hb.prev

/-- Splitting a block. -/
theorem Linked.split {size : U32} (h : Linked m prev (pre ++ b :: post) 0#32)
    (harr : Arranged (pre ++ ⟨b.addr, size, b.free⟩ :: b.leftover size :: post)) :
    Linked (splitBlock b.addr size m) prev
      (pre ++ ⟨b.addr, size, b.free⟩ :: b.leftover size :: post) 0#32 := by
  obtain ⟨hpre, hb, hpost⟩ := linked_middle.mp h
  have hapart := harr.headersApart
  rw [List.pairwise_append, List.pairwise_cons, List.pairwise_cons] at hapart
  obtain ⟨-, ⟨hbapart, hrpost, hpostapart⟩, hpreapart⟩ := hapart
  have hbr : HeadersApart b.addr (b.leftover size).addr := hbapart _ (.head _)
  have hbpost : ∀ c ∈ post, HeadersApart b.addr c.addr := fun c hc => hbapart c (.tail _ hc)
  have hpostpos : ∀ c ∈ post, 0 < c.addr.toNat := fun c hc => harr.positive c (by simp [hc])
  have hpostb : ∀ c ∈ post, HeadersApart c.addr b.addr := fun c hc => (hbpost c hc).symm
  have hpostr : ∀ c ∈ post, HeadersApart c.addr (b.leftover size).addr :=
    fun c hc => (hrpost c hc).symm
  -- the writes in source order, with what they read already looked up
  let r := (b.leftover size).addr
  let m₁ := Mm.setField r .prev b.addr (Mm.setField r .next (firstAddr post 0#32)
    (Mm.setField r .free 1#32 (Mm.setField r .size (b.leftover size).size m)))
  let m₂ := Mm.setPrevOf (firstAddr post 0#32) r m₁
  have hwrites : splitBlock b.addr size m =
      Mm.setField b.addr .size size (Mm.setField b.addr .next r m₂) := by
    have hrb : HeadersApart (b.addr + headerSize + size) b.addr := hbr.symm
    simp only [splitBlock, field_setField_of_apart hrb, hb.size, hb.next]
    rfl
  have hother {x : U32} (hbx : HeadersApart b.addr x) (hrx : HeadersApart r x)
      (hpostx : ∀ c ∈ post, HeadersApart c.addr x) (f : HeapField) :
      field (splitBlock b.addr size m) x f = field m x f := by
    rw [hwrites, field_setField_of_apart hbx, field_setField_of_apart hbx,
      field_setPrevOf hpostx, field_setField_of_apart hrx, field_setField_of_apart hrx,
      field_setField_of_apart hrx, field_setField_of_apart hrx]
  have hb₂ (f : HeapField) : field m₂ b.addr f = field m b.addr f := by
    rw [field_setPrevOf hpostb, field_setField_of_apart hbr.symm,
      field_setField_of_apart hbr.symm, field_setField_of_apart hbr.symm,
      field_setField_of_apart hbr.symm]
  have hr₂ (f : HeapField) : field (splitBlock b.addr size m) r f = field m₁ r f := by
    rw [hwrites, field_setField_of_apart hbr, field_setField_of_apart hbr,
      field_setPrevOf hpostr]
  have hpost₁ : Linked m₁ b.addr post 0#32 :=
    (((hpost.setField hrpost).setField hrpost).setField hrpost).setField hrpost
  refine linked_append.mpr ⟨?_, ⟨?_, ?_, ?_, ?_⟩, ⟨?_, ?_, ?_, ?_⟩, ?_⟩
  · refine hpre.congr fun c hc f => ?_
    exact hother (hpreapart c hc _ (.head _)).symm (hpreapart c hc _ (.tail _ (.head _))).symm
      (fun d hd => (hpreapart c hc d (.tail _ (.tail _ hd))).symm) f
  · rw [hwrites, field_setField_self]
  · rw [hwrites, field_setField_of_ne (by decide), field_setField_of_ne (by decide), hb₂, hb.free]
  · rw [hwrites, field_setField_of_ne (by decide), field_setField_self]
    rfl
  · rw [hwrites, field_setField_of_ne (by decide), field_setField_of_ne (by decide), hb₂, hb.prev]
  · rw [hr₂]
    simp [m₁, r]
  · rw [hr₂]
    simp [m₁, r, Block.leftover]
  · rw [hr₂]
    simp [m₁, r]
  · rw [hr₂]
    simp [m₁, r]
  · rw [hwrites]
    exact ((hpost₁.setPrevOf hpostapart hpostpos).setField hbpost).setField hbpost

/-- Taking the next block in. -/
theorem Linked.absorb {c : Block} (h : Linked m prev (pre ++ b :: c :: post) 0#32)
    (harr : Arranged (pre ++ b :: c :: post)) :
    Linked (Mm.setPrevOf (firstAddr post 0#32) b.addr
      (Mm.setField b.addr .next (firstAddr post 0#32)
        (Mm.setField b.addr .size (b.absorb c).size m))) prev (pre ++ b.absorb c :: post) 0#32 := by
  obtain ⟨hpre, hb, hc, hpost⟩ := linked_append.mp h
  have hapart := harr.headersApart
  rw [List.pairwise_append, List.pairwise_cons, List.pairwise_cons] at hapart
  obtain ⟨-, ⟨hbapart, hcpost, hpostapart⟩, hpreapart⟩ := hapart
  have hbpost : ∀ d ∈ post, HeadersApart b.addr d.addr := fun d hd => hbapart d (.tail _ hd)
  have hpostpos : ∀ d ∈ post, 0 < d.addr.toNat := fun d hd => harr.positive d (by simp [hd])
  have hpostb : ∀ d ∈ post, HeadersApart d.addr b.addr := fun d hd => (hbpost d hd).symm
  refine linked_append.mpr ⟨?_, ⟨?_, ?_, ?_, ?_⟩, ?_⟩
  · refine hpre.congr fun d hd f => ?_
    have hbd := (hpreapart d hd b (.head _)).symm
    rw [field_setPrevOf fun e he => (hpreapart d hd e (.tail _ (.tail _ he))).symm,
      field_setField_of_apart hbd, field_setField_of_apart hbd]
  · change field _ b.addr _ = _
    rw [field_setPrevOf hpostb, field_setField_of_ne (by decide), field_setField_self]
  · change field _ b.addr _ = _
    rw [field_setPrevOf hpostb, field_setField_of_ne (by decide), field_setField_of_ne (by decide),
      hb.free]
    rfl
  · change field _ b.addr _ = _
    rw [field_setPrevOf hpostb, field_setField_self]
  · change field _ b.addr _ = _
    rw [field_setPrevOf hpostb, field_setField_of_ne (by decide), field_setField_of_ne (by decide),
      hb.prev]
  · exact ((hpost.setField hbpost).setField hbpost).setPrevOf hpostapart hpostpos

/-- The header of a new block. -/
theorem headerAt_initBlock (m : Memory) (a size : U32) :
    HeaderAt (initBlock a size m) ⟨a, size, true⟩ 0#32 0#32 := by
  unfold initBlock
  constructor <;> simp

/-- Writing a new block leaves a list linked that is apart from it. -/
theorem Linked.initBlock {size : U32} (h : Linked m prev l next)
    (hapart : ∀ b ∈ l, HeadersApart a b.addr) : Linked (initBlock a size m) prev l next :=
  (((h.setField hapart).setField hapart).setField hapart).setField hapart

/-- Linking a new block behind the last one. -/
theorem Linked.concat {t e : Block} (h : Linked m prev (pre ++ [t]) 0#32)
    (he : HeaderAt m e 0#32 0#32) (harr : Arranged (pre ++ [t] ++ [e])) :
    Linked (Mm.setField e.addr .prev t.addr (Mm.setField t.addr .next e.addr m)) prev
      (pre ++ [t] ++ [e]) 0#32 := by
  obtain ⟨hpre, ht, -⟩ := linked_append.mp h
  have hall := harr.headersApart
  rw [List.append_assoc, List.pairwise_append, List.singleton_append, List.pairwise_cons] at hall
  obtain ⟨-, ⟨hte, -⟩, hcross⟩ := hall
  have hte : HeadersApart t.addr e.addr := hte e (.head _)
  have hpret : ∀ b ∈ pre, HeadersApart t.addr b.addr := fun b hb => (hcross b hb t (.head _)).symm
  have hpree : ∀ b ∈ pre, HeadersApart e.addr b.addr :=
    fun b hb => (hcross b hb e (.tail _ (.head _))).symm
  rw [List.append_assoc, List.singleton_append]
  refine linked_append.mpr ⟨(hpre.setField hpret).setField hpree, ⟨?_, ?_, ?_, ?_⟩,
    ⟨?_, ?_, ?_, ?_⟩, trivial⟩
  · rw [field_setField_of_apart hte.symm, field_setField_of_ne (by decide), ht.size]
  · rw [field_setField_of_apart hte.symm, field_setField_of_ne (by decide), ht.free]
  · rw [field_setField_of_apart hte.symm, field_setField_self]
    rfl
  · rw [field_setField_of_apart hte.symm, field_setField_of_ne (by decide), ht.prev]
  · rw [field_setField_of_ne (by decide), field_setField_of_apart hte, he.size]
  · rw [field_setField_of_ne (by decide), field_setField_of_apart hte, he.free]
  · rw [field_setField_of_ne (by decide), field_setField_of_apart hte, he.next]
    rfl
  · rw [field_setField_self]

end

end AlderKernel.Mm
