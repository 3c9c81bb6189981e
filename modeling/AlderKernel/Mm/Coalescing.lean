import AlderKernel.Mm.HeapRuns

/-!
# Coalescing

No two neighbours of the block list are both free and meet, as long as no `kmalloc`
leaves a block that it could not use behind a free block. `kfree` looks at one neighbour on
each side, which is enough where that held before.
-/

namespace AlderKernel.Mm

open Machine

/-- No two neighbours are free and meet. -/
def Coalesced (l : List Block) : Prop := l.IsChain fun a b => ¬ a.Mergeable b

/-- `kmalloc` grows the heap by a block that is too small for the request and meets a free last
block. -/
def LeavesNeighbour (l : List Block) (p : Pmm) (size : U32) : Prop :=
  (∀ b ∈ l, ¬ b.Fits size) ∧ ∃ first got p', ObtainsPages p (needPages size) first got.toNat p' ∧
    (newBlock first got).size < size ∧ ∃ t ∈ l.getLast?, t.Mergeable (newBlock first got)

/-- The heap has a block list without mergeable neighbours. -/
def FullyCoalesced (start : Pmm) (s : Heap) (live : Set U32) : Prop :=
  ∃ l, WellFormed start s live l ∧ Coalesced l

/-- A call of `kmalloc` that leaves no mergeable neighbour. -/
def LeavesNone (s : Heap) (n : U32) : Prop :=
  n = 0#32 ∨ ∀ l, Represents s l → Arranged l →
    ¬ LeavesNeighbour l s.pmm (alignUp n alignment)

section

variable {l pre post : List Block} {a b c d : Block} {size : U32}

/-- What meets a joined block from behind meets its last part. -/
theorem mergeable_absorb (h : b.Mergeable c) (hc : c.stop ≤ 2 ^ 27) :
    (b.absorb c).Mergeable d ↔ c.Mergeable d := by
  have hstop : (b.absorb c).stop = c.stop :=
    congrArg (fun s => s.hi) (segment_absorb h.2.2 hc)
  unfold Block.Mergeable
  rw [hstop, h.2.1]
  change b.free = true ∧ _ ↔ _
  rw [h.1]

/-- Joining a block with the next one leaves no mergeable neighbours, if there are none in front of
it and none behind it. -/
theorem coalesced_mergeNext (hpre : Coalesced (pre ++ [b])) (hpost : Coalesced post)
    (hmax : ∀ c ∈ post, c.stop ≤ 2 ^ 27) : Coalesced (pre ++ mergeNext b post) := by
  unfold Coalesced at *
  cases post with
  | nil => exact hpre
  | cons c post =>
    rw [mergeNext_cons]
    split_ifs with hmerge
    · rw [List.isChain_split]
      constructor
      · -- The joined block starts where `b` does.
        rw [List.isChain_append] at hpre ⊢
        refine ⟨hpre.1, List.isChain_singleton _, fun a ha b' hb' => ?_⟩
        obtain rfl := Option.mem_some_iff.mp hb'
        exact hpre.2.2 a ha b rfl
      · cases post with
        | nil => exact List.isChain_singleton _
        | cons d post =>
          rw [List.isChain_cons_cons] at hpost ⊢
          rw [mergeable_absorb hmerge (hmax c (.head _))]
          exact hpost
    · rw [List.isChain_append_cons_cons]
      exact ⟨hpre, hmerge, hpost⟩

/-- Giving a block back leaves no mergeable neighbours. -/
theorem coalesced_release (h : Coalesced (pre ++ b :: post)) (harr : Arranged (pre ++ b :: post)) :
    Coalesced (release pre b post) := by
  obtain ⟨hpre, hpost⟩ := List.isChain_split.mp h
  have hmark : Arranged (pre ++ { b with free := true } :: post) :=
    (arranged_mark _ _ _ true).1.mpr harr
  have hsingle : Coalesced ([] ++ [{ b with free := true }]) := List.isChain_singleton _
  have hnext : Coalesced (mergeNext { b with free := true } post) :=
    coalesced_mergeNext hsingle hpost.tail fun c hc => harr.bounded c (by simp [hc])
  have hbound := (arranged_mergeNext hmark).1.bounded
  unfold release
  rcases List.eq_nil_or_concat pre with rfl | ⟨pre, a, rfl⟩
  · exact hnext
  · rw [List.concat_eq_append] at *
    rw [mergePrev_concat]
    exact coalesced_mergeNext hpre.left_of_append hnext
      fun c hc => hbound c (List.mem_append_right _ hc)

/-- Taking a free block leaves no mergeable neighbours: its front part is in use, and what is left
ends where the block did. -/
theorem coalesced_carve (hpre : Coalesced pre) (hpost : Coalesced (b :: post)) (hfits : b.Fits size)
    (hmax : b.stop ≤ 2 ^ 27) : Coalesced (pre ++ b.carve size ++ post) := by
  have hfront (n : U32) : Coalesced (pre ++ [⟨b.addr, n, false⟩]) := by
    refine List.isChain_append.mpr ⟨hpre, List.isChain_singleton _, fun a _ b' hb' => ?_⟩
    obtain rfl := Option.mem_some_iff.mp hb'
    exact fun hmerge => Bool.noConfusion hmerge.2.1
  have hused (n : U32) (c : Block) : ¬ (⟨b.addr, n, false⟩ : Block).Mergeable c :=
    fun hmerge => Bool.noConfusion hmerge.1
  unfold Coalesced at *
  rw [List.append_assoc]
  unfold Block.carve
  split_ifs with hsplit
  · obtain ⟨hmeet, hsegment⟩ := segment_split hsplit hfits.2 hmax
    have hstop : (b.leftover size).stop = b.stop :=
      (congrArg (fun s => s.hi) hsegment).symm
    refine List.isChain_append_cons_cons.mpr ⟨hfront size, hused _ _, ?_⟩
    cases post with
    | nil => exact List.isChain_singleton _
    | cons c post =>
      change List.IsChain _ (b.leftover size :: c :: post)
      rw [List.isChain_cons_cons] at hpost ⊢
      refine ⟨fun hmerge => hpost.1 ⟨hfits.1, hmerge.2.1, ?_⟩, hpost.2⟩
      rw [← hstop]
      exact hmerge.2.2
  · refine List.isChain_split.mpr ⟨hfront b.size, ?_⟩
    cases post with
    | nil => exact List.isChain_singleton _
    | cons c post =>
      change List.IsChain _ (_ :: c :: post)
      rw [List.isChain_cons_cons] at hpost ⊢
      exact ⟨hused _ _, hpost.2⟩

/-- A new last block leaves no mergeable neighbours exactly when it does not meet a free last
block. -/
theorem coalesced_concat (h : Coalesced l) :
    Coalesced (l ++ [b]) ↔ ¬ ∃ t ∈ l.getLast?, t.Mergeable b := by
  unfold Coalesced at *
  rw [List.isChain_append, and_iff_right h, and_iff_right (List.isChain_singleton _)]
  simp

end

section

variable {start : Pmm} {s : Heap} {live : Set U32} {l : List Block} {size : U32}

/-- `kmalloc` leaves no mergeable neighbours, unless it leaves an unused block behind a free one. -/
theorem KmallocSteps.coalesced_iff {r : U32 × Heap} {l' : List Block}
    (hsteps : KmallocSteps s l size r l') (h : Coalesced l) (harr : Arranged l)
    (hpos : ∀ q, s.pmm.Free q → q ≠ 0#32)
    (habove : ∀ b ∈ l, ∀ q, s.pmm.Free q → b.stop ≤ q.toNat * 4096) :
    Coalesced l' ↔ ¬ LeavesNeighbour l s.pmm size := by
  cases hsteps with
  | found pre b post hl hfirst hfits =>
    subst hl
    obtain ⟨hpre, hpost⟩ := List.isChain_split.mp h
    refine ⟨fun _ hleaves => hleaves.1 b (by simp) hfits, fun _ => ?_⟩
    exact coalesced_carve hpre.left_of_append hpost hfits (harr.bounded b (by simp))
  | grown first got s' hnone hpages hrepresents' hused hcount hsize =>
    have harr' := (arranged_newBlock harr hpos habove hpages).1
    refine ⟨fun _ hleaves => ?_, fun _ => ?_⟩
    · obtain ⟨-, first', got', p', hpages', hsmall, -⟩ := hleaves
      obtain ⟨rfl, hgot⟩ := hpages.unique hpages'
      obtain rfl := BitVec.eq_of_toNat_eq hgot
      exact absurd hsize (BitVec.not_le.mpr hsmall)
    · have hsingle : Coalesced (newBlock first got :: []) := List.isChain_singleton _
      have hcarve := coalesced_carve h hsingle ⟨rfl, hsize⟩
        (harr'.bounded (newBlock first got) (by simp))
      rwa [List.append_nil] at hcarve
  | tooSmall first got s' hnone hpages hrepresents' hused hcount hsize =>
    rw [coalesced_concat h, not_iff_not]
    constructor
    · exact fun hlast => ⟨hnone, first, got, s'.pmm, hpages, hsize, hlast⟩
    · rintro ⟨-, first', got', p', hpages', -, hlast⟩
      obtain ⟨rfl, hgot⟩ := hpages.unique hpages'
      obtain rfl := BitVec.eq_of_toNat_eq hgot
      exact hlast
  | noPage hnone hpages =>
    refine ⟨fun _ hleaves => ?_, fun _ => h⟩
    obtain ⟨-, first, got, p', hobtains, -⟩ := hleaves
    exact hpages first (hobtains.run.free first le_rfl (Nat.lt_add_of_pos_right hobtains.pos))

/-- A block that is left unused comes with a null pointer. -/
theorem KmallocSteps.not_leavesNeighbour {r : U32 × Heap} {l' : List Block}
    (hsteps : KmallocSteps s l size r l') (hptr : r.1 ≠ 0#32) :
    ¬ LeavesNeighbour l s.pmm size := by
  rintro ⟨hnone, first, got, p', hpages, hsmall, -⟩
  cases hsteps with
  | found pre b post hl hfirst hfits =>
    subst hl
    exact hnone b (by simp) hfits
  | grown first' got' s' _ hpages' _ _ _ hsize =>
    obtain ⟨rfl, hgot⟩ := hpages.unique hpages'
    obtain rfl := BitVec.eq_of_toNat_eq hgot
    exact absurd hsize (BitVec.not_le.mpr hsmall)
  | tooSmall => exact hptr rfl
  | noPage => exact hptr rfl

/-- A call of `kmalloc` that succeeds leaves no mergeable neighbour. -/
theorem HeapInv.leavesNone (h : HeapInv start s live l) (hpos : ∀ q, start.Free q → q ≠ 0#32)
    {n ptr : U32} {s' : Heap} (hrun : Mm.kmalloc n s = some (ptr, s')) (hptr : ptr ≠ 0#32) :
    LeavesNone s n := by
  by_cases hn : n = 0#32
  · exact .inl hn
  · obtain ⟨r, l', hrun', hsteps⟩ := h.kmalloc_steps hpos hn
    obtain rfl := Option.some.inj (hrun.symm.trans hrun')
    refine .inr fun l'' hrep harr => ?_
    rw [hrep.unique h.represents harr h.accounts.arranged]
    exact hsteps.not_leavesNeighbour hptr

/-- A heap whose list has no mergeable neighbours is fully coalesced, and only such a heap. -/
theorem HeapInv.fullyCoalesced_iff (h : HeapInv start s live l) :
    FullyCoalesced start s live ↔ Coalesced l := by
  constructor
  · rintro ⟨l', hwell, hcoalesced⟩
    obtain rfl := hwell.unique h.wellFormed
    exact hcoalesced
  · exact fun hcoalesced => ⟨l, h.wellFormed, hcoalesced⟩

/-- What `kmalloc` does to the neighbours, in the list of a reachable heap. -/
theorem HeapInv.coalesced_kmalloc (h : HeapInv start s live l) (hcoalesced : Coalesced l)
    (hpos : ∀ q, start.Free q → q ≠ 0#32) {r : U32 × Heap} {l' : List Block}
    (hsteps : KmallocSteps s l size r l') : Coalesced l' ↔ ¬ LeavesNeighbour l s.pmm size :=
  hsteps.coalesced_iff hcoalesced h.accounts.arranged
    (fun q hq => hpos q (h.accounts.freeBefore q hq)) fun _ hb _ hq => h.accounts.stop_le hb hq

/-- Every state of a run whose calls of `kmalloc` leave no mergeable neighbour is coalesced. -/
theorem ReachableWith.coalesced {mayFree : Heap → U32 → Prop}
    (hreach : ReachableWith start LeavesNone mayFree s live)
    (hpos : ∀ q, start.Free q → q ≠ 0#32) : ∃ l, HeapInv start s live l ∧ Coalesced l := by
  refine hreach.invariant (P := fun _ l => Coalesced l) hpos ?_ ?_ ?_ ?_
  · rintro s l - - (rfl | ⟨first, got, rfl⟩)
    · exact List.isChain_nil
    · exact List.isChain_singleton _
  · intro s live l n r l' hinv hcoalesced hmay hn _ hsteps
    exact (hinv.coalesced_kmalloc hcoalesced hpos hsteps).mpr
      (hmay.resolve_left hn l hinv.represents hinv.accounts.arranged)
  · intro s live pre b post hinv hcoalesced _ _
    exact coalesced_release hcoalesced hinv.accounts.arranged
  · exact fun _ hcoalesced => hcoalesced

/-- Coalescing over whole runs. As long as no `kmalloc` leaves an unused block behind a free last
one, no two neighbours of the list are free and meet; `kfree` always keeps it so, and a `kmalloc`
exactly when it leaves no such block. -/
theorem heap_coalesced {m : Memory} {kernelEnd multibootInfoAddr : U32} {turns : ℕ} {boot : Pmm}
    (hinit : pmmInit m kernelEnd turns multibootInfoAddr boot = some start)
    (hreach : ReachableWith start LeavesNone (fun _ _ => True) s live) :
    FullyCoalesced start s live ∧
      (∀ n ptr s', kmalloc n s = some (ptr, s') →
        (FullyCoalesced start s' (if ptr = 0#32 then live else insert ptr live) ↔
          LeavesNone s n)) ∧
      ∀ ptr ∈ live, FullyCoalesced start (kfree ptr s) (live \ {ptr}) := by
  have hpos := free_ne_zero hinit
  obtain ⟨l, hinv, hcoalesced⟩ := hreach.coalesced hpos
  refine ⟨⟨l, hinv.wellFormed, hcoalesced⟩, fun n ptr s' hrun => ?_, fun ptr hptr => ?_⟩
  · by_cases hn : n = 0#32
    · have hnull : kmalloc n s = some (0#32, s) := if_pos hn
      obtain ⟨rfl, rfl⟩ := Prod.mk.inj (Option.some.inj (hrun.symm.trans hnull))
      rw [if_pos rfl]
      exact ⟨fun _ => .inl hn, fun _ => ⟨l, hinv.wellFormed, hcoalesced⟩⟩
    · obtain ⟨r, l', hrun', hsteps⟩ := hinv.kmalloc_steps hpos hn
      obtain rfl := Option.some.inj (hrun'.symm.trans hrun)
      have hinv' := (hinv.steps hpos hsteps).1
      rw [hinv'.fullyCoalesced_iff, hinv.coalesced_kmalloc hcoalesced hpos hsteps]
      constructor
      · intro hleaves
        refine .inr fun l' hrep harr => ?_
        rwa [hrep.unique hinv.represents harr hinv.accounts.arranged]
      · exact fun hmay => hmay.resolve_left hn l hinv.represents hinv.accounts.arranged
  · obtain ⟨pre, b, post, rfl, hb, rfl⟩ := hinv.split_live hptr
    exact ⟨_, (hinv.release hb).wellFormed, coalesced_release hcoalesced hinv.accounts.arranged⟩

/-- After the boot with one region two allocations of 100 bytes are split off the block of the heap,
and the first one is freed: the heap is coalesced, before and after. -/
theorem oneRegion_coalesced : ∃ start s ptr s' ptr' s'',
    pmmInit oneRegion 0x180000#32 2 0x1000#32 ⟨fun _ => 0#8, 0#32⟩ = some start ∧
      kmalloc 100#32 s = some (ptr, s') ∧ ptr ≠ 0#32 ∧
      kmalloc 100#32 s' = some (ptr', s'') ∧ ptr' ≠ 0#32 ∧ ptr' ≠ ptr ∧
      ReachableWith start LeavesNone (fun _ _ => True) s'' {ptr', ptr} ∧
      FullyCoalesced start s'' {ptr', ptr} ∧
      ReachableWith start LeavesNone (fun _ _ => True) (kfree ptr s'') ({ptr', ptr} \ {ptr}) ∧
      FullyCoalesced start (kfree ptr s'') ({ptr', ptr} \ {ptr}) := by
  obtain ⟨start, s, ptr, s', ptr', s'', hinit, hrun, hrun', hptr, hrun'', hptr', hne⟩ :=
    kmallocTwice_oneRegion
  have hpos := free_ne_zero hinit
  have hstart : Reachable start s ∅ := .init rfl hrun
  have hfirst : Reachable start s' {ptr} := by
    simpa [hptr] using hstart.kmalloc 100#32 hrun'
  obtain ⟨l, hinv⟩ := hstart.heapInv hpos
  obtain ⟨l', hinv'⟩ := hfirst.heapInv hpos
  have hone : ReachableWith start LeavesNone (fun _ _ => True) s' {ptr} := by
    simpa [hptr] using (ReachableWith.init rfl hrun).kmalloc 100#32
      (hinv.leavesNone hpos hrun' hptr) hrun'
  have htwo : ReachableWith start LeavesNone (fun _ _ => True) s'' {ptr', ptr} := by
    simpa [hptr'] using hone.kmalloc 100#32 (hinv'.leavesNone hpos hrun'' hptr') hrun''
  have hback := htwo.kfree ptr (.inr (by simp)) trivial
  exact ⟨start, s, ptr, s', ptr', s'', hinit, hrun', hptr, hrun'', hptr', hne, htwo,
    (heap_coalesced hinit htwo).1, hback, (heap_coalesced hinit hback).1⟩

/-- After the boot with one region, a request for 1 MB takes the rest of the memory, which is not
enough, and leaves it as a second free block behind the first one. -/
theorem failedGrowth_coalesced : ∃ start s s',
    pmmInit oneRegion 0x180000#32 2 0x1000#32 ⟨fun _ => 0#8, 0#32⟩ = some start ∧
      Reachable start s ∅ ∧ kmalloc 0x100000#32 s = some (0#32, s') ∧
      Reachable start s' ∅ ∧ ¬ FullyCoalesced start s' ∅ := by
  obtain ⟨start, s, first, got, hinit, hrun, hinv, -, hpages⟩ := heapInit_oneRegion
  have hpos := free_ne_zero hinit
  obtain ⟨hfirst, hgot, hfree⟩ := obtains_oneRegion hinit hpages
  have hreach : Reachable start s ∅ := .init rfl hrun
  have hsize := size_newBlock hpages
  have hstop := stop_newBlock hpages
  have halign : alignUp 0x100000#32 alignment = 0x100000#32 := by decide
  have hneed : (needPages 0x100000#32).toNat = 257 := by decide
  obtain ⟨⟨ptr, s'⟩, l', hrun', hsteps⟩ := hinv.kmalloc_steps hpos (n := 0x100000#32) (by decide)
  have hiff := hinv.coalesced_kmalloc (List.isChain_singleton _) hpos hsteps
  have hinv' := (hinv.steps hpos hsteps).1
  rw [halign] at hsteps hiff
  cases hsteps with
  | found pre b post hl hskip hfits =>
    have hb : b ∈ [newBlock first got] := by
      rw [hl]
      simp
    obtain rfl := List.mem_singleton.mp hb
    have hle := hfits.2
    bv_omega
  | grown first' got' s' hnone hpages' hrepresents' hused hcount hsize' =>
    have hnew := size_newBlock hpages'
    have hlast := (hfree _).mp (hpages'.run.free 512#32 ?_ ?_)
    · exact absurd hlast.2 (by decide)
    · have hle : first' ≤ 401#32 := hpages'.lowest _ ((hfree _).mpr (by decide))
      bv_omega
    · have hlow := (hfree _).mp (hpages'.run.free first' le_rfl
        (Nat.lt_add_of_pos_right hpages'.pos))
      bv_omega
  | tooSmall first' got' s' hnone hpages' hrepresents' hused hcount hsize' =>
    have hlow := (hfree _).mp (hpages'.run.free first' le_rfl
      (Nat.lt_add_of_pos_right hpages'.pos))
    have hle : first' ≤ 401#32 := hpages'.lowest _ ((hfree _).mpr (by decide))
    have hmeets : (newBlock first got).Mergeable (newBlock first' got') := by
      refine ⟨rfl, rfl, ?_⟩
      rw [hstop, addr_newBlock hpages', hfirst, hgot]
      bv_omega
    have hleaves : LeavesNeighbour [newBlock first got] s.pmm 0x100000#32 :=
      ⟨hnone, first', got', _, hpages', hsize', _, rfl, hmeets⟩
    rw [if_pos rfl] at hinv'
    refine ⟨start, s, s', hinit, hreach, hrun', ?_, fun hcoalesced => ?_⟩
    · simpa using hreach.kmalloc 0x100000#32 hrun'
    · exact hiff.mp (hinv'.fullyCoalesced_iff.mp hcoalesced) hleaves
  | noPage hnone hpages' => exact absurd ((hfree 401#32).mpr (by decide)) (hpages' _)

end

end AlderKernel.Mm
