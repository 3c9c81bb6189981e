import AlderKernel.Mm.FreeBytes

/-!
# The bytes of the heap are conserved

`used_bytes` counts the payloads in use exactly. Together with `free_bytes` it adds up to
what `heap_extend` has brought in, whatever was split and merged since.
-/

namespace AlderKernel.Mm

open Machine

/-- The number of pages that `heap_extend` obtains, 0 when there is none. -/
def obtainedPages (pages : U32) (p : Pmm) : ℕ :=
  let first := pmmAllocPage p
  if first.1 = 0#32 then 0
  else (extendPages (pages.toNat - 1) 1#32 (first.1 + pageSize) first.2).1.toNat

/-- The number of pages that each `heap_extend` of one `kmalloc` obtains. -/
def kmallocPages (n : U32) (s : Heap) : List ℕ :=
  if n = 0#32 then [] else
  if firstFit s.mem (alignUp n alignment) (2 ^ 32) s.heapHead = some 0#32 then
    [obtainedPages (needPages (alignUp n alignment)) s.pmm]
  else []

/-- The payloads of the blocks that calls of `heap_extend` made of the pages they obtained. A call
that obtained no page made no block. -/
def payloadBytes (pages : List ℕ) : ℕ := ((pages.filter (0 < ·)).map fun n => 4096 * n - 16).sum

/-- The heap in the course of a run, with the pointers that are live and the number of pages that
each `heap_extend` so far obtained. -/
structure Session where
  heap : Heap
  live : Set U32
  pages : List ℕ

/-- A run starts with `heap_init`. -/
inductive Session.Starts (start : Pmm) : Session → Prop
  | heapInit {s s' : Heap} (hpmm : s.pmm = start) (hinit : heapInit s = some s') :
      Starts start ⟨s', ∅, [obtainedPages heapInitialPages s.pmm]⟩

/-- A call of `kmalloc`, a call of `kfree` with a live pointer or the null pointer, or a store of a
client to its own payload. -/
inductive Session.Step (S : Session) : Session → Prop
  | kmalloc {ptr : U32} {s' : Heap} (n : U32) (hrun : kmalloc n S.heap = some (ptr, s')) :
      Step S ⟨s', if ptr = 0#32 then S.live else insert ptr S.live,
        S.pages ++ kmallocPages n S.heap⟩
  | kfree (ptr : U32) (hptr : ptr = 0#32 ∨ ptr ∈ S.live) :
      Step S ⟨kfree ptr S.heap, S.live \ {ptr}, S.pages⟩
  | store (ptr : U32) (hptr : ptr ∈ S.live) (i : ℕ)
      (hi : i < (field S.heap.mem (ptr - headerSize) .size).toNat) (v : U8) :
      Step S ⟨{ S.heap with mem := S.heap.mem.write (ptr + BitVec.ofNat 32 i) v }, S.live, S.pages⟩

/-- The sessions that runs from `heap_init` on reach. -/
def Session.Reachable (start : Pmm) (S : Session) : Prop :=
  ∃ S₀, Session.Starts start S₀ ∧ Relation.ReflTransGen Session.Step S₀ S

/-- The sessions that runs reach in which a pointer stays live. -/
def Session.Keeping (ptr : U32) : Session → Session → Prop :=
  Relation.ReflTransGen fun S T => Session.Step S T ∧ ptr ∈ T.live

/-- The counters are exact in a session with the list `l`. -/
structure Session.Conserved (start : Pmm) (S : Session) (l : List Block) : Prop where
  inv : HeapInv start S.heap S.live l
  used : S.heap.usedBytes = BitVec.ofNat 32 (usedSize l)
  total : S.heap.usedBytes + S.heap.freeBytes = BitVec.ofNat 32 (payloadBytes S.pages)

section

variable {s : Heap} {l : List Block} {p p' : Pmm} {size pages first got : U32}

/-- The payloads of further calls are added. -/
theorem payloadBytes_append (ns ns' : List ℕ) :
    payloadBytes (ns ++ ns') = payloadBytes ns + payloadBytes ns' := by
  simp [payloadBytes]

/-- The payload of one call that obtained pages. -/
theorem payloadBytes_singleton {n : ℕ} (h : 0 < n) : payloadBytes [n] = 4096 * n - 16 := by
  simp [payloadBytes, h]

/-- Without a free page `heap_extend` obtains none. -/
theorem obtainedPages_none (hnone : ∀ q, ¬ p.Free q) : obtainedPages pages p = 0 := by
  rcases pmmAllocPage_spec p with ⟨page, hpage⟩ | ⟨-, hresult⟩
  · exact absurd hpage.free (hnone page)
  · exact if_pos (congrArg Prod.fst hresult)

/-- The pages that `heap_extend` obtains are counted. -/
theorem ObtainsPages.obtainedPages (h : ObtainsPages p pages first got.toNat p')
    (hpos : ∀ q, p.Free q → q ≠ 0#32) (hpages : 0 < pages.toNat) :
    obtainedPages pages p = got.toNat := by
  have hfree : p.Free first := h.run.free first le_rfl (Nat.lt_add_of_pos_right h.pos)
  rcases pmmAllocPage_spec p with ⟨page, hpage⟩ | ⟨hnone, -⟩
  · obtain ⟨got', p'', hrun, hobtains⟩ := heapExtend_pages hpos hpages hpage
    obtain ⟨-, hgot⟩ := h.unique hobtains
    have hlt : page.toNat < 32768 := hpage.free.1
    have hzero := hpos page hpage.free
    have haddr : (page <<< 12).toNat = page.toNat * 4096 :=
      toNat_pageAddr (BitVec.le_of_lt hpage.free.1)
    have hne : (pmmAllocPage p).1 ≠ 0#32 := by
      rw [hpage.address]
      bv_omega
    unfold Mm.obtainedPages
    dsimp only
    rw [if_neg hne, hrun, hgot]
  · exact absurd hfree (hnone first)

/-- The block that the heap grows by has the payload that is counted for its pages. -/
theorem size_newBlock_payload (h : ObtainsPages p pages first got.toNat p') :
    (newBlock first got).size = BitVec.ofNat 32 (payloadBytes [got.toNat]) := by
  have hsize := size_newBlock h
  have hbound := h.bound
  rw [payloadBytes_singleton h.pos]
  bv_omega

/-- `kmalloc` extends the heap when no block fits. -/
theorem kmallocPages_eq {n : U32} (h : Represents s l) (harr : Arranged l) (hn : n ≠ 0#32) :
    kmallocPages n s = if ∃ b ∈ l, b.Fits (alignUp n alignment) then []
      else [obtainedPages (needPages (alignUp n alignment)) s.pmm] := by
  have hlength := harr.length_lt
  have hsearch := firstFit_spec (alignUp n alignment) (2 ^ 32) h.linked
    (fun b hb => harr.addr_ne_zero hb) (by omega)
  unfold kmallocPages
  rw [if_neg hn, h.head, hsearch]
  cases hfind : l.find? fun b => b.Fits (alignUp n alignment) with
  | some b =>
    have hmem := List.mem_of_find?_eq_some hfind
    have hfits : b.Fits (alignUp n alignment) := by simpa using List.find?_some hfind
    have hzero : b.addr ≠ 0#32 := harr.addr_ne_zero hmem
    rw [if_neg (by simpa using hzero), if_pos ⟨b, hmem, hfits⟩]
  | none =>
    have hnone : ∀ a ∈ l, ¬ a.Fits (alignUp n alignment) := by simpa using hfind
    rw [if_pos (by simp), if_neg (by simpa using hnone)]

end

section

variable {start : Pmm} {s : Heap} {live : Set U32} {l : List Block} {n ptr : U32}
  {r : U32 × Heap} {l' : List Block}

/-- `kmalloc` of a nonzero size adds to the counters together what the heap grows by. -/
theorem HeapInv.kmalloc_total (h : HeapInv start s live l) (hpos : ∀ q, start.Free q → q ≠ 0#32)
    (hn : n ≠ 0#32) (hsteps : KmallocSteps s l (alignUp n alignment) r l') :
    r.2.usedBytes + r.2.freeBytes = s.usedBytes + s.freeBytes +
      BitVec.ofNat 32 (payloadBytes (kmallocPages n s)) := by
  have hpos' : ∀ q, s.pmm.Free q → q ≠ 0#32 := fun q hq => hpos q (h.accounts.freeBefore q hq)
  have htake (block : U32) (s' : Heap) (size : U32) :
      (takeBlock block size s').2.usedBytes + (takeBlock block size s').2.freeBytes =
        s'.usedBytes + s'.freeBytes := by
    unfold takeBlock
    dsimp only
    bv_omega
  rw [kmallocPages_eq h.represents h.accounts.arranged hn]
  cases hsteps with
  | found pre b post hl hfirst hfits =>
    rw [if_pos ⟨b, hl ▸ by simp, hfits⟩, htake]
    simp [payloadBytes]
  | grown first got s' hnone hpages hrepresents hused hcount hsize =>
    rw [if_neg (by simpa using hnone), htake, hused, hcount,
      hpages.obtainedPages hpos' (needPages_pos _), size_newBlock_payload hpages]
    simp [BitVec.add_assoc]
  | tooSmall first got s' hnone hpages hrepresents hused hcount hsize =>
    rw [if_neg (by simpa using hnone), hused, hcount,
      hpages.obtainedPages hpos' (needPages_pos _), size_newBlock_payload hpages]
    simp [BitVec.add_assoc]
  | noPage hnone hpages =>
    rw [if_neg (by simpa using hnone), obtainedPages_none hpages]
    simp [payloadBytes]

/-- What `kmalloc` takes of the heap when that does not grow: nothing, with a null pointer, or the
block of the pointer. -/
theorem HeapInv.kmalloc_notGrown (h : HeapInv start s live l)
    (hpos : ∀ q, start.Free q → q ≠ 0#32) (hn : n ≠ 0#32)
    (hsteps : KmallocSteps s l (alignUp n alignment) r l') (hgrown : (kmallocPages n s).sum = 0) :
    r = (0#32, s) ∨ ∃ b ∈ inUse l', b.addr + headerSize = r.1 ∧
      r.2.usedBytes = s.usedBytes + b.size ∧ r.2.freeBytes = s.freeBytes - b.size := by
  have harr := h.accounts.arranged
  have hpos' : ∀ q, s.pmm.Free q → q ≠ 0#32 := fun q hq => hpos q (h.accounts.freeBefore q hq)
  rw [kmallocPages_eq h.represents harr hn] at hgrown
  cases hsteps with
  | found pre b post hl hfirst hfits =>
    subst hl
    obtain ⟨hused, hfree⟩ := takeBlock_moves h.represents harr hfits
    refine .inr ⟨⟨b.addr, b.taken (alignUp n alignment), false⟩, ?_, rfl, hused, hfree⟩
    simp [inUse, carve_eq]
  | grown first got s' hnone hpages hrepresents hused hcount hsize =>
    have hgot := hpages.pos
    rw [if_neg (by simpa using hnone), hpages.obtainedPages hpos' (needPages_pos _)] at hgrown
    simp only [List.sum_cons, List.sum_nil] at hgrown
    omega
  | tooSmall first got s' hnone hpages hrepresents hused hcount hsize =>
    have hgot := hpages.pos
    rw [if_neg (by simpa using hnone), hpages.obtainedPages hpos' (needPages_pos _)] at hgrown
    simp only [List.sum_cons, List.sum_nil] at hgrown
    omega
  | noPage hnone hpages => exact .inl rfl

end

section

variable {start : Pmm} {S T : Session} {l : List Block}

/-- A step keeps the invariant of the heap, and the blocks in use whose pointers stay live. -/
theorem Session.Step.heapInv (hstep : Session.Step S T) (hpos : ∀ q, start.Free q → q ≠ 0#32)
    (h : HeapInv start S.heap S.live l) : ∃ l', HeapInv start T.heap T.live l' ∧
      ∀ b ∈ inUse l, b.addr + headerSize ∈ T.live → b ∈ inUse l' := by
  cases hstep with
  | @kmalloc ptr s' n hrun =>
    obtain ⟨ptr', s'', l', hrun', hinv, hkept⟩ := h.kmalloc hpos n
    obtain ⟨rfl, rfl⟩ := Prod.mk.inj (Option.some.inj (hrun.symm.trans hrun'))
    exact ⟨l', hinv, fun b hb _ => hkept b hb⟩
  | kfree ptr hptr =>
    rcases hptr with rfl | hptr
    · rw [Set.sdiff_singleton_eq_self h.null_dead, kfree_null]
      exact ⟨l, h, fun b hb _ => hb⟩
    · obtain ⟨l', hinv, hkept⟩ := h.kfree hptr
      exact ⟨l', hinv, fun b hb hlive => hkept b hb hlive.2⟩
  | store ptr hptr i hi v => exact ⟨l, h.store hptr hi v, fun b hb _ => hb⟩

/-- A block in use stays the block of its pointer as long as that is live. -/
theorem Session.Keeping.block {b : Block} (h : Session.Keeping (b.addr + headerSize) S T)
    (hpos : ∀ q, start.Free q → q ≠ 0#32) (hinv : HeapInv start S.heap S.live l)
    (hb : b ∈ inUse l) : ∃ l', HeapInv start T.heap T.live l' ∧ b ∈ inUse l' := by
  induction h with
  | refl => exact ⟨l, hinv, hb⟩
  | tail _ hstep ih =>
    obtain ⟨l₁, hinv₁, hb₁⟩ := ih
    obtain ⟨l₂, hinv₂, hkept⟩ := hstep.1.heapInv hpos hinv₁
    exact ⟨l₂, hinv₂, hkept b hb₁ hstep.2⟩

/-- The first session is conserved. -/
theorem Session.Starts.conserved (h : Session.Starts start S)
    (hpos : ∀ q, start.Free q → q ≠ 0#32) : ∃ l, S.Conserved start l := by
  cases h with
  | @heapInit s s' hpmm hinit =>
    obtain ⟨s'', l, hrun, hinv, hcounts, hlist⟩ := heapInv_init hpos hpmm
    obtain rfl := Option.some.inj (hinit.symm.trans hrun)
    refine ⟨l, hinv, hcounts.used, ?_⟩
    rw [hcounts.used, hcounts.free]
    rcases hlist with ⟨hnone, rfl⟩ | ⟨first, got, rfl, hpages⟩
    · simp [obtainedPages_none (hpmm ▸ hnone), payloadBytes, usedSize, freeSize, inUse]
    · have hobtained := (hpmm ▸ hpages).obtainedPages (hpmm ▸ hpos) (by decide)
      have hfree : freeSize [newBlock first got] = (newBlock first got).size.toNat := by
        simp [freeSize, newBlock]
      have hused : usedSize [newBlock first got] = 0 := by simp [usedSize, inUse, newBlock]
      simp [hobtained, ← size_newBlock_payload hpages, hfree, hused]

/-- A step keeps the counters exact. -/
theorem Session.Conserved.step (h : S.Conserved start l) (hstep : Session.Step S T)
    (hpos : ∀ q, start.Free q → q ≠ 0#32) : ∃ l', T.Conserved start l' := by
  obtain ⟨hinv, hused, htotal⟩ := h
  -- The excess of `free_bytes` does not matter here.
  have hcounts : Counts S.heap l (S.heap.freeBytes - BitVec.ofNat 32 (freeSize l)) :=
    ⟨hused, by bv_omega⟩
  cases hstep with
  | @kmalloc ptr s' n hrun =>
    by_cases hn : n = 0#32
    · have hnull : Mm.kmalloc n S.heap = some (0#32, S.heap) := if_pos hn
      obtain ⟨rfl, rfl⟩ := Prod.mk.inj (Option.some.inj (hrun.symm.trans hnull))
      refine ⟨l, ?_, hused, ?_⟩
      · rw [if_pos rfl]
        exact hinv
      · simpa [kmallocPages, hn] using htotal
    · obtain ⟨r, l', hrun', hsteps⟩ := hinv.kmalloc_steps hpos hn
      obtain rfl := Option.some.inj (hrun'.symm.trans hrun)
      have hsplits := hinv.counts_kmalloc hcounts hpos hsteps
      refine ⟨l', (hinv.steps hpos hsteps).1, ?_, ?_⟩
      · by_cases hsplit : Splits l S.heap.pmm (alignUp n alignment)
        · exact (hsplits.1 hsplit).used
        · exact (hsplits.2 hsplit).used
      · dsimp only
        rw [hinv.kmalloc_total hpos hn hsteps, htotal, payloadBytes_append, BitVec.ofNat_add]
  | kfree ptr hptr =>
    rcases hptr with rfl | hptr
    · rw [Set.sdiff_singleton_eq_self hinv.null_dead, kfree_null]
      exact ⟨l, hinv, hused, htotal⟩
    · obtain ⟨pre, b, post, rfl, hb, rfl⟩ := hinv.split_live hptr
      obtain ⟨k, hk, -⟩ := length_release pre b post
      have hmoves := kfree_moves hinv.represents hinv.accounts.arranged
      refine ⟨release pre b post, hinv.release hb,
        (hcounts.kfree hinv.represents hinv.accounts.arranged hb hk).used, ?_⟩
      dsimp only
      rw [hmoves.1, hmoves.2, ← htotal]
      bv_omega
  | store ptr hptr i hi v => exact ⟨l, hinv.store hptr hi v, hused, htotal⟩

/-- The counters are exact over whole runs. -/
theorem Session.Reachable.conserved (h : Session.Reachable start S)
    (hpos : ∀ q, start.Free q → q ≠ 0#32) : ∃ l, S.Conserved start l := by
  obtain ⟨S₀, hstart, hsteps⟩ := h
  induction hsteps with
  | refl => exact hstart.conserved hpos
  | tail _ hstep ih =>
    obtain ⟨l, hconserved⟩ := ih
    exact hconserved.step hstep hpos

/-- What `kmalloc` moved between the counters, the `kfree` of its pointer moves back, if the heap
did not grow. -/
theorem HeapInv.kmalloc_kfree {s' : Heap} {n ptr : U32} (h : HeapInv start S.heap S.live l)
    (hpos : ∀ q, start.Free q → q ≠ 0#32) (hrun : Mm.kmalloc n S.heap = some (ptr, s'))
    (hgrown : (kmallocPages n S.heap).sum = 0) {pages : List ℕ}
    (hkeep : Session.Keeping ptr ⟨s', if ptr = 0#32 then S.live else insert ptr S.live, pages⟩ T) :
    (Mm.kfree ptr T.heap).usedBytes = T.heap.usedBytes - (s'.usedBytes - S.heap.usedBytes) ∧
      (Mm.kfree ptr T.heap).freeBytes = T.heap.freeBytes + (S.heap.freeBytes - s'.freeBytes) := by
  have hnull (hptr : ptr = 0#32) (hs' : s' = S.heap) :
      (Mm.kfree ptr T.heap).usedBytes = T.heap.usedBytes - (s'.usedBytes - S.heap.usedBytes) ∧
        (Mm.kfree ptr T.heap).freeBytes =
          T.heap.freeBytes + (S.heap.freeBytes - s'.freeBytes) := by
    simp [hptr, hs', kfree_null]
  by_cases hn : n = 0#32
  · have hzero : Mm.kmalloc n S.heap = some (0#32, S.heap) := if_pos hn
    obtain ⟨rfl, rfl⟩ := Prod.mk.inj (Option.some.inj (hrun.symm.trans hzero))
    exact hnull rfl rfl
  · obtain ⟨r, l', hrun', hsteps⟩ := h.kmalloc_steps hpos hn
    obtain rfl := Option.some.inj (hrun'.symm.trans hrun)
    rcases h.kmalloc_notGrown hpos hn hsteps hgrown with hr | ⟨b, hb, hptr, hused, hfree⟩
    · exact hnull (congrArg Prod.fst hr) (congrArg Prod.snd hr)
    · have hinv := (h.steps hpos hsteps).1
      dsimp only at hptr hused hfree hinv
      subst hptr
      obtain ⟨l₂, hinv₂, hb₂⟩ := hkeep.block hpos hinv hb
      obtain ⟨pre, post, rfl⟩ := List.append_of_mem (List.mem_filter.mp hb₂).1
      obtain ⟨husedT, hfreeT⟩ := kfree_moves hinv₂.represents hinv₂.accounts.arranged
      rw [husedT, hfreeT, hused, hfree]
      constructor <;> bv_omega

/-- The bytes of the heap are conserved. In every state that a run from `heap_init` on reaches,
`used_bytes` is the sum of the sizes of the blocks in use, and the two counters together are,
modulo `2 ^ 32`, what the calls of `heap_extend` that obtained a page so far brought in. A `kmalloc`
for which the heap does not grow moves between the counters what the `kfree` of its pointer moves
back, at once or later. -/
theorem bytes_conserved {m : Memory} {kernelEnd multibootInfoAddr : U32} {turns : ℕ} {boot : Pmm}
    (hinit : pmmInit m kernelEnd turns multibootInfoAddr boot = some start)
    (hreach : Session.Reachable start S) :
    ∃ l, WellFormed start S.heap S.live l ∧ S.heap.usedBytes.toNat = usedSize l ∧
      S.heap.usedBytes + S.heap.freeBytes = BitVec.ofNat 32 (payloadBytes S.pages) ∧
      ∀ n ptr s', kmalloc n S.heap = some (ptr, s') → (kmallocPages n S.heap).sum = 0 →
        (kfree ptr s').usedBytes = S.heap.usedBytes ∧
          (kfree ptr s').freeBytes = S.heap.freeBytes ∧
          ∀ T, Session.Keeping ptr ⟨s', if ptr = 0#32 then S.live else insert ptr S.live,
              S.pages ++ kmallocPages n S.heap⟩ T →
            (kfree ptr T.heap).usedBytes =
                T.heap.usedBytes - (s'.usedBytes - S.heap.usedBytes) ∧
              (kfree ptr T.heap).freeBytes =
                T.heap.freeBytes + (S.heap.freeBytes - s'.freeBytes) := by
  have hpos := free_ne_zero hinit
  obtain ⟨l, hinv, hused, htotal⟩ := hreach.conserved hpos
  refine ⟨l, hinv.wellFormed, ?_, htotal, fun n ptr s' hrun hgrown => ?_⟩
  · have hlt := hinv.accounts.arranged.sizes_lt
    rw [hused, BitVec.toNat_ofNat]
    exact Nat.mod_eq_of_lt (by omega)
  · obtain ⟨hused', hfree'⟩ := hinv.kmalloc_kfree hpos hrun hgrown
      (.refl : Session.Keeping ptr ⟨s', _, S.pages ++ kmallocPages n S.heap⟩ _)
    refine ⟨?_, ?_, fun T hkeep => hinv.kmalloc_kfree hpos hrun hgrown hkeep⟩
    · dsimp only at hused'
      rw [hused']
      bv_omega
    · dsimp only at hfree'
      rw [hfree']
      bv_omega

end

/-- After the boot with one region and one allocation the bytes are conserved. -/
theorem oneRegion_bytes_conserved : ∃ start S ptr l,
    pmmInit oneRegion 0x180000#32 2 0x1000#32 ⟨fun _ => 0#8, 0#32⟩ = some start ∧
      Session.Reachable start S ∧ S.live = {ptr} ∧ WellFormed start S.heap S.live l ∧
      S.heap.usedBytes.toNat = usedSize l ∧
      S.heap.usedBytes + S.heap.freeBytes = BitVec.ofNat 32 (payloadBytes S.pages) := by
  obtain ⟨start, s, ptr, s', hinit, hrun, hrun', hptr⟩ := kmalloc_oneRegion
  have hreach : Session.Reachable start _ :=
    ⟨_, .heapInit rfl hrun, .single (.kmalloc 100#32 hrun')⟩
  obtain ⟨l, hwell, hused, htotal, -⟩ := bytes_conserved hinit hreach
  exact ⟨start, _, ptr, l, hinit, hreach, by simp [hptr], hwell, hused, htotal⟩

/-- When the kernel fills the one region, `heap_init` obtains no page. Both counters are 0 then, and
`4096 * 0 - 16` is not, modulo `2 ^ 32`. -/
theorem noPage_bytes : ∃ start S,
    pmmInit oneRegion 0x200000#32 2 0x1000#32 ⟨fun _ => 0#8, 0#32⟩ = some start ∧
      Session.Reachable start S ∧ S.pages = [0] ∧
      S.heap.usedBytes + S.heap.freeBytes ≠
        BitVec.ofInt 32 (S.pages.map fun n : ℕ => 4096 * (n : ℤ) - 16).sum := by
  obtain ⟨start, hinit⟩ : ∃ start, pmmInit oneRegion 0x200000#32 2 0x1000#32
      ⟨fun _ => 0#8, 0#32⟩ = some start := by
    rw [pmmInit_eq, memoryMap_oneRegion]
    exact ⟨_, rfl⟩
  have hnone (q : U32) : ¬ start.Free q := by
    rw [pmmInit_free_iff memoryMap_oneRegion (by decide) hinit]
    rintro ⟨hkernel, e, he, -, -, hlast⟩
    obtain rfl := List.mem_singleton.mp he
    have hend : (⟨0x100000#64, 0x100000#64, 1#32⟩ : MapEntry).lastPage = 512 := by decide
    have hpage : (0x200000#32).toNat / 4096 = 512 := by decide
    omega
  obtain ⟨s, l, hrun, -, hcounts, ⟨-, rfl⟩ | ⟨first, got, -, hpages⟩⟩ :=
    heapInv_init (s := ⟨oneRegion, start, 0#32, 0#32, 0#32⟩) (free_ne_zero hinit) rfl
  · have hstart : Session.Starts start _ := .heapInit rfl hrun
    have hpages : obtainedPages heapInitialPages start = 0 := obtainedPages_none hnone
    refine ⟨start, _, hinit, ⟨_, hstart, .refl⟩, by rw [hpages], ?_⟩
    dsimp only
    rw [hpages, hcounts.used, hcounts.free]
    decide
  · exact absurd (hpages.run.free first le_rfl (Nat.lt_add_of_pos_right hpages.pos)) (hnone _)

end AlderKernel.Mm
