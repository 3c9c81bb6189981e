import AlderKernel.Elf.Loader

/-!
# What an image describes

The program headers of an image as data, the checks on them as statements about
exact integers, and the memory that the first headers of the table describe: at
each address the last covering segment decides. Nothing here refers to the
loader's execution.
-/

namespace AlderKernel.Elf

open Machine

/-- The byte of the image at an offset. -/
def imageByte (m : Memory) (image : U32) (off : ℕ) : U8 := m.byte (image + BitVec.ofNat 32 off)

/-- The fields of `elf32_phdr_t` that the loader uses. -/
structure ProgramHeader where
  type : U32
  offset : U32
  vaddr : U32
  filesz : U32
  memsz : U32
  deriving DecidableEq

/-- The program header at an offset of the image. -/
def programHeader (m : Memory) (image : U32) (off : ℕ) : ProgramHeader where
  type := m.load32 (image + BitVec.ofNat 32 off)
  offset := m.load32 (image + BitVec.ofNat 32 (off + 4))
  vaddr := m.load32 (image + BitVec.ofNat 32 (off + 8))
  filesz := m.load32 (image + BitVec.ofNat 32 (off + 16))
  memsz := m.load32 (image + BitVec.ofNat 32 (off + 20))

/-- `e_phnum` as a number. -/
def phnum (m : Memory) (image : U32) : ℕ := (m.load16 (image + 44#32)).toNat

/-- The offset of entry `i` of the program header table, with stride `e_phentsize`. -/
def headerOffset (m : Memory) (image : U32) (i : ℕ) : ℕ :=
  (m.load32 (image + 28#32)).toNat + i * (m.load16 (image + 42#32)).toNat

/-- Entry `i` of the program header table. -/
def headerAt (m : Memory) (image : U32) (i : ℕ) : ProgramHeader :=
  programHeader m image (headerOffset m image i)

namespace ProgramHeader

/-- The source bytes lie in an image of `size` bytes and in memory there is room for them. -/
def Fits (h : ProgramHeader) (size : ℕ) : Prop :=
  h.offset.toNat + h.filesz.toNat ≤ size ∧ h.filesz.toNat ≤ h.memsz.toNat

/-- A header that the loader does not reject: another type than `PT_LOAD`, or a fitting segment. -/
def Accepted (h : ProgramHeader) (size : ℕ) : Prop := h.type = ptLoad → h.Fits size

/-- How many bytes the loop body looks at, from the start of the header to the end of the last
field that it reads: `p_type` decides whether there is anything to load, and each of the
comparisons on `p_offset`, `p_filesz` and `p_memsz` may be the last. -/
def readSize (h : ProgramHeader) (size : ℕ) : ℕ :=
  if h.type ≠ ptLoad then 4
  else if size < h.offset.toNat then 8
  else if size < h.offset.toNat + h.filesz.toNat then 20
  else 24

/-- The address belongs to the memory range of a `PT_LOAD` header. -/
def Covers (h : ProgramHeader) (x : U32) : Prop := h.type = ptLoad ∧ Within h.vaddr h.memsz.toNat x

/-- The byte that a segment describes for an address in its range: a byte of the
file part, or zero behind it. -/
def content (h : ProgramHeader) (m : Memory) (image x : U32) : U8 :=
  if (x - h.vaddr).toNat < h.filesz.toNat then
    imageByte m image (h.offset.toNat + (x - h.vaddr).toNat)
  else 0#8

instance (h : ProgramHeader) (size : ℕ) : Decidable (h.Fits size) :=
  inferInstanceAs (Decidable (_ ∧ _))

instance (h : ProgramHeader) (size : ℕ) : Decidable (h.Accepted size) :=
  inferInstanceAs (Decidable (_ → _))

instance (h : ProgramHeader) (x : U32) : Decidable (h.Covers x) :=
  inferInstanceAs (Decidable (_ ∧ _))

/-- A header that is not to be loaded is read no further than its type. -/
theorem readSize_of_ne {h : ProgramHeader} (htype : h.type ≠ ptLoad) (size : ℕ) :
    h.readSize size = 4 := if_pos htype

/-- Of a segment that fits, the fields up to `p_memsz` are read. -/
theorem readSize_of_fits {h : ProgramHeader} {size : ℕ} (htype : h.type = ptLoad)
    (hfits : h.Fits size) : h.readSize size = 24 := by
  obtain ⟨hsrc, -⟩ := hfits
  unfold readSize
  rw [if_neg (not_not.mpr htype), if_neg (by omega), if_neg (by omega)]

/-- What is read of a header is part of it, and holds the type. -/
theorem readSize_bounds (h : ProgramHeader) (size : ℕ) :
    4 ≤ h.readSize size ∧ h.readSize size ≤ phdrSize := by
  unfold readSize phdrSize
  split_ifs <;> omega

/-- A loader cannot tell the two headers apart: it reads as many bytes of the one as of the
other, and finds the same fields where it loads a segment. -/
structure ReadsAlike (size : ℕ) (h h' : ProgramHeader) : Prop where
  readSize : h'.readSize size = h.readSize size
  accepted : h'.Accepted size ↔ h.Accepted size
  type : h'.type = h.type
  eq : h.type = ptLoad → h.Fits size → h' = h

/-- Two headers read alike when each field that is read of the one is that of the other. -/
theorem ReadsAlike.of_fields {h h' : ProgramHeader} {size : ℕ} (htype : h'.type = h.type)
    (hoffset : h.type = ptLoad → h'.offset = h.offset)
    (hfilesz : h.type = ptLoad → h.offset.toNat ≤ size → h'.filesz = h.filesz)
    (hall : h.type = ptLoad → h.offset.toNat + h.filesz.toNat ≤ size → h' = h) :
    h.ReadsAlike size h' := by
  by_cases hload : h.type = ptLoad
  · have hload' : h'.type = ptLoad := htype.trans hload
    by_cases hin : h.offset.toNat + h.filesz.toNat ≤ size
    · rw [hall hload hin]
      exact ⟨rfl, Iff.rfl, rfl, fun _ _ => rfl⟩
    · -- Both headers are rejected, by the same one of the first two comparisons.
      have hsrc : ¬ h'.offset.toNat + h'.filesz.toNat ≤ size := by
        rw [hoffset hload]
        by_cases hbehind : h.offset.toNat ≤ size
        · rw [hfilesz hload hbehind]
          exact hin
        · omega
      refine ⟨?_, iff_of_false (fun ha => hsrc (ha hload').1) fun ha => hin (ha hload).1, htype,
        fun _ hfits => absurd hfits.1 hin⟩
      unfold ProgramHeader.readSize
      rw [if_neg (not_not.mpr hload), if_neg (not_not.mpr hload'), hoffset hload]
      by_cases hbehind : size < h.offset.toNat
      · rw [if_pos hbehind, if_pos hbehind]
      · rw [if_neg hbehind, if_neg hbehind, hfilesz hload (by omega)]
  · have hload' : h'.type ≠ ptLoad := htype ▸ hload
    refine ⟨?_, ?_, htype, fun hptLoad => absurd hptLoad hload⟩
    · rw [readSize_of_ne hload, readSize_of_ne hload']
    · exact iff_of_true (fun hptLoad => absurd hptLoad hload') fun hptLoad => absurd hptLoad hload

end ProgramHeader

/-- The identification, type, machine and `e_phnum` checks hold. -/
def HeaderOk (m : Memory) (image : U32) : Prop :=
  imageByte m image 0 = 0x7F#8 ∧ imageByte m image 1 = 0x45#8 ∧ imageByte m image 2 = 0x4C#8 ∧
    imageByte m image 3 = 0x46#8 ∧ imageByte m image 4 = elfClass32 ∧
    imageByte m image 5 = elfData2Lsb ∧ m.load16 (image + 16#32) = etExec ∧
    m.load16 (image + 18#32) = em386 ∧ m.load16 (image + 44#32) ≠ 0#16

instance (m : Memory) (image : U32) : Decidable (HeaderOk m image) :=
  inferInstanceAs (Decidable (_ ∧ _))

/-- The program header table ends inside an image of `size` bytes. -/
def TableFits (m : Memory) (image : U32) (size : ℕ) : Prop :=
  headerOffset m image (phnum m image) ≤ size

instance (m : Memory) (image : U32) (size : ℕ) : Decidable (TableFits m image size) :=
  inferInstanceAs (Decidable (_ ≤ _))

/-- Everything that is checked before the loop over the program headers. -/
def Loadable (m : Memory) (image outEntry : U32) (size : ℕ) : Prop :=
  (image ≠ 0#32 ∧ outEntry ≠ 0#32) ∧ ehdrSize ≤ size ∧ HeaderOk m image ∧ TableFits m image size

instance (m : Memory) (image outEntry : U32) (size : ℕ) :
    Decidable (Loadable m image outEntry size) :=
  inferInstanceAs (Decidable (_ ∧ _))

/-- The loop comes to entry `k`: the earlier checks hold, there is an entry `k`, and
the entries before it are accepted. -/
def Visited (m : Memory) (image outEntry : U32) (size k : ℕ) : Prop :=
  Loadable m image outEntry size ∧ k < phnum m image ∧
    ∀ j < k, (headerAt m image j).Accepted size

/-- The memory that the first `k` entries of the table describe, over the memory `m`. -/
def loaded (m : Memory) (image : U32) : ℕ → U32 → U8
  | 0, x => m.byte x
  | k + 1, x =>
    if (headerAt m image k).Covers x then (headerAt m image k).content m image x
    else loaded m image k x

/-- Where no entry covers an address its byte is the old one. -/
theorem loaded_of_not_covered {m : Memory} {image x : U32} {k : ℕ}
    (h : ∀ i < k, ¬ (headerAt m image i).Covers x) : loaded m image k x = m.byte x := by
  induction k with
  | zero => rfl
  | succ k ih =>
    rw [loaded, if_neg (h k (by omega))]
    exact ih fun i hi => h i (by omega)

/-- The last entry that covers an address decides its byte. -/
theorem loaded_of_last {m : Memory} {image x : U32} {i k : ℕ} (hi : i < k)
    (hcovers : (headerAt m image i).Covers x)
    (hlast : ∀ j, i < j → j < k → ¬ (headerAt m image j).Covers x) :
    loaded m image k x = (headerAt m image i).content m image x := by
  induction k with
  | zero => omega
  | succ k ih =>
    rw [loaded]
    by_cases hik : i = k
    · subst hik
      exact if_pos hcovers
    · rw [if_neg (hlast k (by omega) (by omega))]
      exact ih (by omega) fun j hij hjk => hlast j hij (by omega)

/-- An address whose byte differs is covered by one of the entries. -/
theorem exists_covers_of_loaded_ne {m : Memory} {image x : U32} {k : ℕ}
    (h : loaded m image k x ≠ m.byte x) : ∃ i < k, (headerAt m image i).Covers x := by
  by_contra hnone
  push Not at hnone
  exact h (loaded_of_not_covered hnone)

/-- Two memories hold the same `size` bytes from `image` on. -/
def SameImage (m m' : Memory) (image : U32) (size : ℕ) : Prop :=
  ∀ off < size, imageByte m' image off = imageByte m image off

/-- Bytes inside the image are the same. -/
theorem SameImage.byte {m m' : Memory} {image x : U32} {size off n : ℕ}
    (h : SameImage m m' image size) (hoff : off + n ≤ size)
    (hx : Within (image + BitVec.ofNat 32 off) n x) : m'.byte x = m.byte x := by
  have hx' : x = image + BitVec.ofNat 32 (off + (x - (image + BitVec.ofNat 32 off)).toNat) := by
    bv_omega
  rw [hx']
  unfold Within at hx
  exact h _ (by omega)

/-- Fields inside the image load alike. -/
theorem SameImage.load32 {m m' : Memory} {image : U32} {size off : ℕ}
    (h : SameImage m m' image size) (hoff : off + 4 ≤ size) :
    m'.load32 (image + BitVec.ofNat 32 off) = m.load32 (image + BitVec.ofNat 32 off) := by
  apply Memory.load32_congr
  exact fun x hx => h.byte hoff hx

/-- Sixteen-bit fields inside the image load alike. -/
theorem SameImage.load16 {m m' : Memory} {image : U32} {size off : ℕ}
    (h : SameImage m m' image size) (hoff : off + 2 ≤ size) :
    m'.load16 (image + BitVec.ofNat 32 off) = m.load16 (image + BitVec.ofNat 32 off) := by
  apply Memory.load16_congr
  exact fun x hx => h.byte hoff hx

/-- A program header reads alike where the bytes that are read of it lie inside the image. -/
theorem SameImage.readsAlike {m m' : Memory} {image : U32} {size off : ℕ}
    (h : SameImage m m' image size)
    (hoff : off + (programHeader m image off).readSize size ≤ size) :
    (programHeader m image off).ReadsAlike size (programHeader m' image off) := by
  have htype : off + 4 ≤ size := by
    have := ((programHeader m image off).readSize_bounds size).1
    omega
  unfold ProgramHeader.readSize at hoff
  refine .of_fields (h.load32 htype) (fun hload => ?_) (fun hload hin => ?_)
    fun hload hin => ?_
  · rw [if_neg (not_not.mpr hload)] at hoff
    exact h.load32 (by split_ifs at hoff <;> omega)
  · rw [if_neg (not_not.mpr hload), if_neg (by omega)] at hoff
    exact h.load32 (by split_ifs at hoff <;> omega)
  · rw [if_neg (not_not.mpr hload), if_neg (by omega), if_neg (by omega)] at hoff
    unfold programHeader
    rw [h.load32 (by omega), h.load32 (by omega), h.load32 (by omega), h.load32 (by omega),
      h.load32 (by omega)]

/-- Holding the same image goes both ways. -/
theorem SameImage.symm {m m' : Memory} {image : U32} {size : ℕ} (h : SameImage m m' image size) :
    SameImage m' m image size := fun off hoff => (h off hoff).symm

/-- Whether the bytes read of a program header lie inside the image is decided by the image. -/
theorem SameImage.readInside_iff {m m' : Memory} {image : U32} {size off : ℕ}
    (h : SameImage m m' image size) :
    off + (programHeader m' image off).readSize size ≤ size ↔
      off + (programHeader m image off).readSize size ≤ size := by
  constructor
  · intro hoff
    rw [(h.symm.readsAlike hoff).readSize]
    exact hoff
  · intro hoff
    rw [(h.readsAlike hoff).readSize]
    exact hoff

/-- Memories that agree outside ranges apart from the image hold the same image. -/
theorem SameImage.of_unchanged {m m' : Memory} {image : U32} {size : ℕ} (hsize : size ≤ 2 ^ 32)
    (h : ∀ x, Within image size x → m'.byte x = m.byte x) : SameImage m m' image size :=
  fun _ hoff => h _ (within_add hoff hsize)

/-- Entries whose destinations do not overlap the image describe a memory with the
same image. -/
theorem sameImage_loaded {m : Memory} {image : U32} {size k : ℕ} (hsize : size ≤ 2 ^ 32)
    (hapart : ∀ j < k, ∀ x, (headerAt m image j).Covers x → ¬ Within image size x) :
    SameImage m ⟨loaded m image k⟩ image size :=
  .of_unchanged hsize fun x hx =>
    loaded_of_not_covered fun j hj hcovers => hapart j hj x hcovers hx

end AlderKernel.Elf
