import AlderKernel.Elf.Execution

/-!
# The loop over the program header table

The first `k` turns of the loop, for headers that are accepted, lie inside the image and do
not load over it, leave the memory that the first `k` entries describe. What happens then
depends only on entry `k`: the table may end there, the entry may be rejected, or it may
stick out of the image.
-/

namespace AlderKernel.Elf

open Machine

/-- The loader stands in front of entry `k`: memory is as the first `k` entries describe, and every
byte read so far was inside the image. -/
structure BeforeHeader (m : Memory) (image : U32) (size k : ℕ) (s : Loader) : Prop where
  bytes : ∀ x, s.mem.byte x = loaded m image k x
  reads : ∀ o ∈ s.reads, o < size

/-- Entry `j` is accepted, what is read of it lies inside the image, and it does not load over the
image. -/
structure Regular (m : Memory) (image : U32) (size j : ℕ) : Prop where
  accepted : (headerAt m image j).Accepted size
  inside : headerOffset m image j + (headerAt m image j).readSize size ≤ size
  apart : ∀ x, (headerAt m image j).Covers x → ¬ Within image size x

/-- After regular entries the image is still in place. -/
theorem BeforeHeader.sameImage {m : Memory} {image : U32} {size k : ℕ} {s : Loader}
    (h : BeforeHeader m image size k s) (hsize : size ≤ 2 ^ 32)
    (hregular : ∀ j < k, Regular m image size j) : SameImage m s.mem image size := by
  have hloaded := sameImage_loaded hsize fun j hj => (hregular j hj).apart
  exact fun off hoff => (h.bytes _).trans (hloaded off hoff)

/-- Entries of a table that fits have offsets below `2 ^ 32`, computed without wrapping. -/
theorem headerOffset_eq {m : Memory} {image imageSize : U32} {k : ℕ}
    (hfits : TableFits m image imageSize.toNat) (hk : k < phnum m image) :
    (m.load32 (image + 28#32) + (BitVec.ofNat 16 k).setWidth 32 *
      (m.load16 (image + 42#32)).setWidth 32).toNat = headerOffset m image k := by
  have hn : phnum m image < 2 ^ 16 := (m.load16 (image + 44#32)).isLt
  have hs : (m.load16 (image + 42#32)).toNat < 2 ^ 16 := (m.load16 (image + 42#32)).isLt
  have hle : k * (m.load16 (image + 42#32)).toNat ≤
      phnum m image * (m.load16 (image + 42#32)).toNat := Nat.mul_le_mul_right _ (Nat.le_of_lt hk)
  have hsize := imageSize.isLt
  unfold TableFits headerOffset at hfits
  have hk16 : k % 2 ^ 16 = k := Nat.mod_eq_of_lt (by omega)
  have hmul : (BitVec.ofNat 16 k).toNat % 2 ^ 32 * ((m.load16 (image + 42#32)).toNat % 2 ^ 32) =
      k * (m.load16 (image + 42#32)).toNat := by
    rw [BitVec.toNat_ofNat, hk16, Nat.mod_eq_of_lt (by omega : k < 2 ^ 32),
      Nat.mod_eq_of_lt (by omega : (m.load16 (image + 42#32)).toNat < 2 ^ 32)]
  rw [BitVec.toNat_add, BitVec.toNat_mul, BitVec.toNat_setWidth, BitVec.toNat_setWidth, hmul,
    Nat.mod_eq_of_lt (by omega : k * (m.load16 (image + 42#32)).toNat < 2 ^ 32),
    Nat.mod_eq_of_lt (by omega)]
  rfl

/-- The fields of the ELF header that the loop reads again are the original ones. -/
theorem SameImage.tableFields {m m' : Memory} {image : U32} {size : ℕ}
    (h : SameImage m m' image size) (hsize : ehdrSize ≤ size) :
    m'.load16 (image + 44#32) = m.load16 (image + 44#32) ∧
      m'.load32 (image + 28#32) = m.load32 (image + 28#32) ∧
      m'.load16 (image + 42#32) = m.load16 (image + 42#32) ∧
      m'.load32 (image + 24#32) = m.load32 (image + 24#32) := by
  unfold ehdrSize at hsize
  exact ⟨h.load16 (by omega : 44 + 2 ≤ size), h.load32 (by omega : 28 + 4 ≤ size),
    h.load16 (by omega : 42 + 2 ≤ size), h.load32 (by omega : 24 + 4 ≤ size)⟩

/-- The loop runs its body at entry `k`. -/
theorem loadSegments_turn {m : Memory} {image imageSize : U32} {k : ℕ} {s : Loader}
    (himage : SameImage m s.mem image imageSize.toNat) (hsize : ehdrSize ≤ imageSize.toNat)
    (hfits : TableFits m image imageSize.toNat) (hk : k < phnum m image) (outEntry : U32)
    (turns : ℕ) :
    loadSegments image imageSize outEntry (turns + 1) (BitVec.ofNat 16 k) s =
      let r := loadSegment image imageSize (headerOffset m image k)
        (((s.log 44 2).log 28 4).log 42 2)
      if r.1 then loadSegments image imageSize outEntry turns (BitVec.ofNat 16 (k + 1)) r.2
      else (false, r.2) := by
  obtain ⟨hphnum, hphoff, hphentsize, -⟩ := himage.tableFields hsize
  have hn : phnum m image < 2 ^ 16 := (m.load16 (image + 44#32)).isLt
  have hlt : BitVec.ofNat 16 k < s.mem.load16 (image + 44#32) := by
    rw [hphnum, BitVec.lt_def, BitVec.toNat_ofNat, Nat.mod_eq_of_lt (by omega)]
    exact hk
  have hsucc : BitVec.ofNat 16 k + 1#16 = BitVec.ofNat 16 (k + 1) := (BitVec.ofNat_add k 1).symm
  have hoffset : (s.mem.load32 (image + 28#32) + (BitVec.ofNat 16 k).setWidth 32 *
      (s.mem.load16 (image + 42#32)).setWidth 32).toNat = headerOffset m image k := by
    rw [hphoff, hphentsize]
    exact headerOffset_eq hfits hk
  rw [← hoffset, ← hsucc]
  exact if_pos hlt

/-- Behind the last entry the loop stores `e_entry` and reports success. -/
theorem loadSegments_exit {m : Memory} {image imageSize outEntry : U32} {s : Loader}
    (himage : SameImage m s.mem image imageSize.toNat) (hsize : ehdrSize ≤ imageSize.toNat)
    (turns : ℕ) :
    loadSegments image imageSize outEntry (turns + 1) (BitVec.ofNat 16 (phnum m image)) s =
      (true, { (s.log 44 2).log 24 4 with
        mem := s.mem.store32 outEntry (m.load32 (image + 24#32)) }) := by
  obtain ⟨hphnum, -, -, hentry⟩ := himage.tableFields hsize
  have hn : phnum m image < 2 ^ 16 := (m.load16 (image + 44#32)).isLt
  have hnot : ¬ BitVec.ofNat 16 (phnum m image) < s.mem.load16 (image + 44#32) := by
    rw [hphnum, BitVec.lt_def, BitVec.toNat_ofNat, Nat.mod_eq_of_lt (by omega)]
    exact Nat.lt_irrefl _
  rw [← hentry]
  exact if_neg hnot

/-- The fields of the ELF header that lead to entry `k` are read inside the image. -/
theorem BeforeHeader.reads_entry {m : Memory} {image : U32} {size k : ℕ} {s : Loader}
    (h : BeforeHeader m image size k s) (hsize : ehdrSize ≤ size) :
    ∀ o ∈ (((s.log 44 2).log 28 4).log 42 2).reads, o < size := by
  unfold ehdrSize at hsize
  intro o ho
  have hinside := ((readsInside_log s (by omega : 44 + 2 ≤ size)).trans
    (readsInside_log _ (by omega : 28 + 4 ≤ size))).trans
    (readsInside_log _ (by omega : 42 + 2 ≤ size))
  exact (hinside o ho).elim (h.reads o) id

/-- One turn at a regular entry: the loop goes on, in front of the next entry. -/
theorem loadSegments_step {m : Memory} {image imageSize : U32} {k : ℕ} {s : Loader}
    (hs : BeforeHeader m image imageSize.toNat k s) (hsize : ehdrSize ≤ imageSize.toNat)
    (hfits : TableFits m image imageSize.toNat) (hk : k < phnum m image)
    (hregular : ∀ j ≤ k, Regular m image imageSize.toNat j) (outEntry : U32) (turns : ℕ) :
    ∃ s', BeforeHeader m image imageSize.toNat (k + 1) s' ∧
      loadSegments image imageSize outEntry (turns + 1) (BitVec.ofNat 16 k) s =
        loadSegments image imageSize outEntry turns (BitVec.ofNat 16 (k + 1)) s' := by
  have hle := Nat.le_of_lt imageSize.isLt
  have himage := hs.sameImage hle fun j hj => hregular j (Nat.le_of_lt hj)
  have hreads := hs.reads_entry hsize
  set entered := ((s.log 44 2).log 28 4).log 42 2
  have hk' := hregular k (Nat.le_refl k)
  have hturn : TurnAt image imageSize.toNat (headerAt m image k) entered
      (loadSegment image imageSize (headerOffset m image k) entered) :=
    turnAt_loadSegment himage hk'.inside fun _ => hk'.apart
  refine ⟨(loadSegment image imageSize (headerOffset m image k) entered).2,
    ⟨fun x => ?_, fun o ho => ?_⟩, ?_⟩
  · rw [hturn.bytes x, loaded]
    by_cases hcovers : (headerAt m image k).Covers x
    · rw [if_pos ⟨hk'.accepted, hcovers⟩, if_pos hcovers]
      unfold ProgramHeader.content
      by_cases hfile : (x - (headerAt m image k).vaddr).toNat < (headerAt m image k).filesz.toNat
      · rw [if_pos hfile, if_pos hfile]
        have hsrc := (hk'.accepted hcovers.1).1
        exact himage _ (by omega)
      · rw [if_neg hfile, if_neg hfile]
    · rw [if_neg fun hc => hcovers hc.2, if_neg hcovers]
      exact hs.bytes x
  · exact (hturn.reads o ho).elim (hreads o) id
  · rw [loadSegments_turn himage hsize hfits hk]
    exact if_pos (hturn.goesOn.mpr hk'.accepted)

/-- The first `k` turns at regular entries. -/
theorem loadSegments_run {m : Memory} {image imageSize : U32} {k : ℕ} {s : Loader}
    (hs : BeforeHeader m image imageSize.toNat 0 s) (hsize : ehdrSize ≤ imageSize.toNat)
    (hfits : TableFits m image imageSize.toNat) (hk : k ≤ phnum m image)
    (hregular : ∀ j < k, Regular m image imageSize.toNat j) (outEntry : U32) (turns : ℕ) :
    ∃ s', BeforeHeader m image imageSize.toNat k s' ∧
      loadSegments image imageSize outEntry (turns + k) 0#16 s =
        loadSegments image imageSize outEntry turns (BitVec.ofNat 16 k) s' := by
  induction k generalizing turns with
  | zero => exact ⟨s, hs, rfl⟩
  | succ k ih =>
    obtain ⟨s', hs', hrun⟩ := ih (by omega) (fun j hj => hregular j (by omega)) (turns + 1)
    obtain ⟨s'', hs'', hstep⟩ := loadSegments_step hs' hsize hfits hk
      (fun j hj => hregular j (by omega)) outEntry turns
    exact ⟨s'', hs'', by rw [← hstep, ← hrun]; congr 1; omega⟩

/-- The loop over the program headers keeps what was recorded. -/
theorem mem_reads_loadSegments (image imageSize outEntry : U32) (turns : ℕ) (i : U16)
    {s : Loader} {o : ℕ} (ho : o ∈ s.reads) :
    o ∈ (loadSegments image imageSize outEntry turns i s).2.reads := by
  induction turns generalizing i s with
  | zero => exact ho
  | succ turns ih =>
    have h44 := Loader.mem_reads_log 44 2 ho
    have h42 := Loader.mem_reads_log 42 2 (Loader.mem_reads_log 28 4 h44)
    simp only [loadSegments]
    split
    · split
      · exact ih _ (mem_reads_loadSegment _ _ _ h42)
      · exact mem_reads_loadSegment _ _ _ h42
    · exact Loader.mem_reads_log 24 4 h44

/-- The wrapping comparisons on the program header table are the exact-integer condition. -/
theorem tableFits_iff {m : Memory} {image imageSize : U32} :
    TableFits m image imageSize.toNat ↔
      ¬ (imageSize < m.load32 (image + 28#32) ∨
        imageSize - m.load32 (image + 28#32) <
          (m.load16 (image + 42#32)).setWidth 32 * (m.load16 (image + 44#32)).setWidth 32) := by
  have hn : (m.load16 (image + 44#32)).toNat < 2 ^ 16 := (m.load16 (image + 44#32)).isLt
  have hs : (m.load16 (image + 42#32)).toNat < 2 ^ 16 := (m.load16 (image + 42#32)).isLt
  have hle : (m.load16 (image + 42#32)).toNat * (m.load16 (image + 44#32)).toNat ≤
      (2 ^ 16 - 1) * (2 ^ 16 - 1) := Nat.mul_le_mul (by omega) (by omega)
  have hmul : ((m.load16 (image + 42#32)).setWidth 32 *
      (m.load16 (image + 44#32)).setWidth 32).toNat =
        phnum m image * (m.load16 (image + 42#32)).toNat := by
    rw [BitVec.toNat_mul, BitVec.toNat_setWidth, BitVec.toNat_setWidth,
      Nat.mod_eq_of_lt (by omega : (m.load16 (image + 42#32)).toNat < 2 ^ 32),
      Nat.mod_eq_of_lt (by omega : (m.load16 (image + 44#32)).toNat < 2 ^ 32),
      Nat.mod_eq_of_lt (by omega), Nat.mul_comm]
    rfl
  unfold TableFits headerOffset
  rw [← hmul]
  generalize (m.load16 (image + 42#32)).setWidth 32 * (m.load16 (image + 44#32)).setWidth 32 =
    phtableSize
  bv_omega

/-- The fields that are read for the table check lie in the ELF header. -/
theorem ReadsInside.logTableFields {size : ℕ} {s s' : Loader} (h : ReadsInside size s s')
    (hsize : ehdrSize ≤ size) :
    ReadsInside size s (((s'.log 42 2).log 44 2).log 28 4) := by
  unfold ehdrSize at hsize
  have h42 := readsInside_log s' (by omega : 42 + 2 ≤ size)
  have h44 := readsInside_log (s'.log 42 2) (by omega : 44 + 2 ≤ size)
  have h28 := readsInside_log ((s'.log 42 2).log 44 2) (by omega : 28 + 4 ≤ size)
  exact ((h.trans h42).trans h44).trans h28

/-- The checks before the loop: they fail with memory untouched, or the loop starts. -/
theorem load_eq (m : Memory) (image imageSize outEntry : U32) :
    (¬ Loadable m image outEntry imageSize.toNat ∧ (load m image imageSize outEntry).1 = false ∧
      (load m image imageSize outEntry).2.mem = m ∧
      ∀ o ∈ (load m image imageSize outEntry).2.reads, o < imageSize.toNat) ∨
    (Loadable m image outEntry imageSize.toNat ∧
      ∃ s, BeforeHeader m image imageSize.toNat 0 s ∧ s.mem = m ∧
        load m image imageSize outEntry =
          loadSegments image imageSize outEntry (2 ^ 16) 0#16 s) := by
  let start : Loader := ⟨m, []⟩
  have hcheck := decides_checkHeader image start
  set checked := checkHeader image start with hchecked
  have hload : load m image imageSize outEntry =
      if image = 0#32 ∨ outEntry = 0#32 then (false, start) else
      if imageSize.toNat < ehdrSize then (false, start) else
      if checked.1 = false then (false, checked.2) else
      if imageSize < checked.2.mem.load32 (image + 28#32) ∨
          imageSize - checked.2.mem.load32 (image + 28#32) <
            (checked.2.mem.load16 (image + 42#32)).setWidth 32 *
              (checked.2.mem.load16 (image + 44#32)).setWidth 32 then
        (false, ((checked.2.log 42 2).log 44 2).log 28 4) else
      loadSegments image imageSize outEntry (2 ^ 16) 0#16
        (((checked.2.log 42 2).log 44 2).log 28 4) := rfl
  have hmem : checked.2.mem = m := hcheck.mem
  rw [hmem] at hload
  rw [hload]
  have hreads (hsize : ehdrSize ≤ imageSize.toNat) :=
    (hcheck.reads.mono hsize).logTableFields hsize
  unfold Loadable
  split_ifs with hnull hsmall hheader htable
  · exact .inl ⟨fun h => hnull.elim h.1.1 h.1.2, rfl, rfl, by simp [start]⟩
  · exact .inl ⟨fun h => by omega, rfl, rfl, by simp [start]⟩
  · refine .inl ⟨fun h => ?_, rfl, hcheck.mem, fun o ho => ?_⟩
    · rw [hcheck.result.mpr h.2.2.1] at hheader
      exact Bool.noConfusion hheader
    · have hin := (hcheck.reads o ho).resolve_left (by simp [start])
      omega
  · refine .inl ⟨fun h => tableFits_iff.mp h.2.2.2 htable, rfl, hmem, ?_⟩
    exact fun o ho => (hreads (by omega) o ho).resolve_left (by simp [start])
  · have hok : HeaderOk m image := hcheck.result.mp (by simpa using hheader)
    refine .inr ⟨⟨not_or.mp hnull, by omega, hok, tableFits_iff.mpr htable⟩,
      ((checked.2.log 42 2).log 44 2).log 28 4, ⟨?_, ?_⟩, hmem, rfl⟩
    · intro x
      exact congrArg (fun m => m.byte x) hmem
    · exact fun o ho => (hreads (by omega) o ho).resolve_left (by simp [start])

end AlderKernel.Elf
