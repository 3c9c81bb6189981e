import AlderKernel.Mm.Coalescing

/-!
# Allocating and giving back

`kmalloc` from a block of the list and `kfree` of its result cancel: the rest that was split off
meets the block and is joined with it again, and nothing else is joined where no two free neighbours
meet.
-/

namespace AlderKernel.Mm

open Machine

/-- The list head, the header fields of the blocks and the byte counters are the same. -/
structure Restored (s s' : Heap) (l : List Block) : Prop where
  head : s'.heapHead = s.heapHead
  fields : ∀ b ∈ l, ∀ f, field s'.mem b.addr f = field s.mem b.addr f
  used : s'.usedBytes = s.usedBytes
  free : s'.freeBytes = s.freeBytes

section

variable {m m' : Memory} {l pre post : List Block} {a b : Block} {prev next size : U32}

/-- Nothing is joined with a block that meets no free neighbour. -/
theorem mergeNext_of_coalesced (h : Coalesced (b :: post)) : mergeNext b post = b :: post := by
  cases post with
  | nil => rfl
  | cons c post => exact if_neg (List.isChain_cons_cons.mp h).1

/-- In a list without mergeable neighbours the block in front merges with nothing. -/
theorem mergePrev_of_coalesced (h : Coalesced (pre ++ l)) : mergePrev pre l = pre ++ l := by
  rcases List.eq_nil_or_concat pre with rfl | ⟨pre, a, rfl⟩
  · rfl
  · rw [List.concat_eq_append] at *
    rw [List.append_assoc, List.singleton_append] at h
    rw [mergePrev_concat, mergeNext_of_coalesced h.right_of_append, List.append_assoc,
      List.singleton_append]

/-- The rest of a split block meets its front. -/
theorem mergeable_leftover (hsplit : size + 32#32 ≤ b.size) (hsize : size ≤ b.size)
    (hmax : b.stop ≤ 2 ^ 27) : (⟨b.addr, size, true⟩ : Block).Mergeable (b.leftover size) :=
  ⟨rfl, rfl, (segment_split hsplit hsize hmax).1⟩

/-- Joined again they are the block. -/
theorem absorb_leftover (hb : b.free = true) :
    (⟨b.addr, size, true⟩ : Block).absorb (b.leftover size) = b := by
  obtain ⟨addr, payload, free⟩ := b
  obtain rfl : free = true := hb
  have hpayload : size + (16#32 + (payload - size - 16#32)) = payload := by
    bv_omega
  unfold Block.absorb Block.leftover
  rw [hpayload]

/-- Giving the front of a block back makes the list what it was before the block was taken. -/
theorem release_carve (h : Coalesced (pre ++ b :: post)) (hfits : b.Fits size)
    (hmax : b.stop ≤ 2 ^ 27) : ∃ rest, b.carve size = ⟨b.addr, b.taken size, false⟩ :: rest ∧
      release pre ⟨b.addr, b.taken size, false⟩ (rest ++ post) = pre ++ b :: post := by
  refine ⟨_, carve_eq size b, ?_⟩
  have hnext : mergeNext ⟨b.addr, b.taken size, true⟩
      ((if size + 32#32 ≤ b.size then [b.leftover size] else []) ++ post) = b :: post := by
    unfold Block.taken
    by_cases hsplit : size + 32#32 ≤ b.size
    · rw [if_pos hsplit, if_pos hsplit, List.singleton_append, mergeNext_cons,
        if_pos (mergeable_leftover hsplit hfits.2 hmax), absorb_leftover hfits.1]
    · have hwhole : (⟨b.addr, b.size, true⟩ : Block) = b := by
        rw [← hfits.1]
      rw [if_neg hsplit, if_neg hsplit, List.nil_append, hwhole,
        mergeNext_of_coalesced h.right_of_append]
  unfold release
  rw [hnext, mergePrev_of_coalesced h]

/-- A linked list decides the header fields of its blocks. -/
theorem Linked.fields_eq (h : Linked m prev l next) (h' : Linked m' prev l next) (hb : b ∈ l)
    (f : HeapField) : field m' b.addr f = field m b.addr f := by
  induction l generalizing prev with
  | nil => cases hb
  | cons c l ih =>
    obtain ⟨hheader, hrest⟩ := h
    obtain ⟨hheader', hrest'⟩ := h'
    rcases List.mem_cons.mp hb with rfl | hb
    · cases f with
      | size => rw [hheader.size, hheader'.size]
      | free => rw [hheader.free, hheader'.free]
      | next => rw [hheader.next, hheader'.next]
      | prev => rw [hheader.prev, hheader'.prev]
    · exact ih hrest hrest' hb

end

section

variable {start : Pmm} {s : Heap} {live : Set U32} {l : List Block} {size : U32}

/-- What `kmalloc` gives out of a block of the list comes from a block that fits: a new block lies
above all others. -/
theorem HeapInv.served_iff (h : HeapInv start s live l) (hpos : ∀ q, start.Free q → q ≠ 0#32)
    {r : U32 × Heap} {l' : List Block} (hsteps : KmallocSteps s l size r l') :
    (∃ b ∈ l, r.1 = b.addr + headerSize) ↔ ∃ b ∈ l, b.Fits size := by
  constructor
  · rintro ⟨b, hb, heq⟩
    cases hsteps with
    | found pre c post hl hfirst hfits => exact ⟨c, by simp [hl], hfits⟩
    | grown first got s' hnone hpages =>
      have hne := (h.accounts.extend hpos hpages).arranged.addr_ne (.inl hb)
      exact absurd ((BitVec.add_left_inj headerSize).mp heq.symm) hne
    | tooSmall => exact absurd heq.symm (h.accounts.arranged.payload_ne_zero hb)
    | noPage => exact absurd heq.symm (h.accounts.arranged.payload_ne_zero hb)
  · intro hfits
    obtain ⟨pre, b, post, rfl, -, rfl, -⟩ := hsteps.of_fits hfits
    exact ⟨b, by simp, rfl⟩

/-- Taking a block of the list and giving it back restores the heap. -/
theorem HeapInv.takeBlock_kfree {pre post : List Block} {b : Block}
    (h : HeapInv start s live (pre ++ b :: post)) (hcoalesced : Coalesced (pre ++ b :: post))
    (hfits : b.Fits size) :
    Represents (Mm.kfree (b.addr + headerSize) (takeBlock b.addr size s).2) (pre ++ b :: post) ∧
      (Mm.kfree (b.addr + headerSize) (takeBlock b.addr size s).2).pmm = s.pmm ∧
      Restored s (Mm.kfree (b.addr + headerSize) (takeBlock b.addr size s).2)
        (pre ++ b :: post) := by
  have harr := h.accounts.arranged
  obtain ⟨rest, hcarve, hrelease⟩ := release_carve hcoalesced hfits (harr.bounded b (by simp))
  obtain ⟨htaken, -, hpmm⟩ := takeBlock_spec h.represents harr hfits
  have harr' := (arranged_carve harr hfits.2).1
  rw [hcarve, List.append_assoc, List.cons_append] at htaken harr'
  obtain ⟨hback, hpmm'⟩ := kfree_spec htaken harr'
  obtain ⟨husedTaken, hfreeTaken⟩ := takeBlock_moves h.represents harr hfits
  obtain ⟨husedBack, hfreeBack⟩ := kfree_moves htaken harr'
  rw [hrelease] at hback
  refine ⟨hback, hpmm'.trans hpmm, ⟨?_, ?_, ?_, ?_⟩⟩
  · exact hback.head.trans h.represents.head.symm
  · exact fun c hc f => h.represents.linked.fields_eq hback.linked hc f
  · rw [husedBack, husedTaken, BitVec.add_sub_cancel]
  · rw [hfreeBack, hfreeTaken, BitVec.sub_add_cancel]

end

/-- `kmalloc` and `kfree` cancel. In every reachable state in which no two free neighbours meet,
`kmalloc` of a nonzero size ends. When what it returns lies in a block of the list, `kfree` of it
restores the list, the header fields of its blocks and both byte counters. -/
theorem kmalloc_kfree_restores {start : Pmm} {m : Memory} {kernelEnd multibootInfoAddr : U32}
    {turns : ℕ} {boot : Pmm} (hinit : pmmInit m kernelEnd turns multibootInfoAddr boot = some start)
    {s : Heap} {live : Set U32} (hreach : Reachable start s live) :
    ∃ l, WellFormed start s live l ∧ (Coalesced l → ∀ n, n ≠ 0#32 →
      ∃ ptr s', kmalloc n s = some (ptr, s') ∧ ((∃ b ∈ l, ptr = b.addr + headerSize) →
        Represents (kfree ptr s') l ∧ (kfree ptr s').pmm = s.pmm ∧
          Restored s (kfree ptr s') l)) := by
  have hpos := free_ne_zero hinit
  obtain ⟨l, hinv⟩ := hreach.heapInv hpos
  refine ⟨l, hinv.wellFormed, fun hcoalesced n hn => ?_⟩
  obtain ⟨r, l', hrun, hsteps⟩ := hinv.kmalloc_steps hpos hn
  refine ⟨r.1, r.2, hrun, fun hserved => ?_⟩
  obtain ⟨pre, b, post, rfl, hfits, rfl, -⟩ :=
    hsteps.of_fits ((hinv.served_iff hpos hsteps).mp hserved)
  exact hinv.takeBlock_kfree hcoalesced hfits

/-- After the boot with one region, 100 bytes are split off the only block and given back. -/
theorem oneRegion_restores : ∃ start s ptr s' l,
    pmmInit oneRegion 0x180000#32 2 0x1000#32 ⟨fun _ => 0#8, 0#32⟩ = some start ∧
      Reachable start s ∅ ∧ WellFormed start s ∅ l ∧ Coalesced l ∧
      kmalloc 100#32 s = some (ptr, s') ∧ ptr ≠ 0#32 ∧
      Represents (kfree ptr s') l ∧ Restored s (kfree ptr s') l := by
  obtain ⟨start, s, first, got, hinit, hrun, hinv, -, hpages⟩ := heapInit_oneRegion
  have hpos := free_ne_zero hinit
  have hreach : Reachable start s ∅ := .init rfl hrun
  have hcoalesced : Coalesced [newBlock first got] := List.isChain_singleton _
  obtain ⟨l, hwell, hrestores⟩ := kmalloc_kfree_restores hinit hreach
  obtain rfl := hwell.unique hinv.wellFormed
  obtain ⟨ptr, s', hrun', hrestored⟩ := hrestores hcoalesced 100#32 (by decide)
  obtain ⟨r, l', hrun'', hsteps⟩ := hinv.kmalloc_steps hpos (n := 100#32) (by decide)
  obtain rfl := Option.some.inj (hrun''.symm.trans hrun')
  have hfits := fits_oneRegion hpages
  have hserved := (hinv.served_iff hpos hsteps).mpr ⟨_, List.mem_singleton_self _, hfits⟩
  obtain ⟨hback, -, hsame⟩ := hrestored hserved
  refine ⟨start, s, ptr, s', _, hinit, hreach, hwell, hcoalesced, hrun', ?_, hback, hsame⟩
  obtain ⟨b, hb, hptr⟩ := hserved
  dsimp only at hptr
  rw [hptr]
  exact hinv.accounts.arranged.payload_ne_zero hb

end AlderKernel.Mm
