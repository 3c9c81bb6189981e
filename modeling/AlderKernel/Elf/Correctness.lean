import AlderKernel.Elf.Table

/-!
# What `elf32_load` guarantees

A successful load produces the described program. A failed one may leave the segments in front
of the rejected header in memory. Reads stay inside the image exactly when, of every visited
program header, the fields up to the one that decides lie inside: the table check uses the stride
`e_phentsize`, the reads use the places of the fields in the header structure.
-/

namespace AlderKernel.Elf

open Machine

/-- A memory holding some bytes from `base` on, and zeros elsewhere. -/
def bytesAt (base : U32) (bytes : List U8) : Memory := ⟨fun x => bytes.getD (x - base).toNat 0#8⟩

/-- An ELF header with entry point `0x200000` and the program header table at offset 52. -/
def sampleEhdr (phentsize phnum : U8) : List U8 :=
  [0x7F#8, 0x45#8, 0x4C#8, 0x46#8, 1#8, 1#8, 1#8, 0#8, 0#8, 0#8, 0#8, 0#8, 0#8, 0#8, 0#8, 0#8,
    2#8, 0#8, 3#8, 0#8, 1#8, 0#8, 0#8, 0#8, 0#8, 0#8, 0x20#8, 0#8, 52#8, 0#8, 0#8, 0#8,
    0#8, 0#8, 0#8, 0#8, 0#8, 0#8, 0#8, 0#8, 52#8, 0#8, phentsize, 0#8, phnum, 0#8,
    0#8, 0#8, 0#8, 0#8, 0#8, 0#8]

/-- A `PT_LOAD` header for four file bytes at `offset` and eight memory bytes at `0x200000`. -/
def samplePhdr (offset : U8) : List U8 :=
  [1#8, 0#8, 0#8, 0#8, offset, 0#8, 0#8, 0#8, 0#8, 0#8, 0x20#8, 0#8, 0#8, 0#8, 0#8, 0#8,
    4#8, 0#8, 0#8, 0#8, 8#8, 0#8, 0#8, 0#8, 0#8, 0#8, 0#8, 0#8, 0#8, 0#8, 0#8, 0#8]

/-- `mov eax, 42; ret`, cut to four bytes. -/
def sampleCode : List U8 := [0xB8#8, 0x2A#8, 0x00#8, 0xC3#8]

/-- A well-formed image with one segment, 88 bytes long, in memory at `0x100000`. -/
def oneSegment : Memory := bytesAt 0x100000#32 (sampleEhdr 32 1 ++ samplePhdr 84 ++ sampleCode)

/-- An image of 52 bytes, the ELF header alone, whose one table entry has size zero and
stands at the end of the image. -/
def strideZero : Memory := bytesAt 0x100000#32 (sampleEhdr 0 1)

/-- An image of 120 bytes with a fitting segment, and behind it one with its file
part behind the end of the image. -/
def secondTooLong : Memory :=
  bytesAt 0x100000#32 (sampleEhdr 32 2 ++ samplePhdr 116 ++ samplePhdr 200 ++ sampleCode)

section

variable {m : Memory} {image imageSize outEntry : U32}

/-- Every program header that the loop comes to lies inside the image. -/
def HeadersInside (m : Memory) (image outEntry : U32) (size : ℕ) : Prop :=
  ∀ k, Visited m image outEntry size k → headerOffset m image k + phdrSize ≤ size

/-- Of every program header that the loop comes to, the bytes that it reads before it passes over,
rejects or loads it lie inside the image. -/
def ReadHeadersInside (m : Memory) (image outEntry : U32) (size : ℕ) : Prop :=
  ∀ k, Visited m image outEntry size k →
    headerOffset m image k + (headerAt m image k).readSize size ≤ size

/-- No accepted segment of a visited header that is read inside the image is loaded over an address
in `P`. -/
def DestinationsAvoid (m : Memory) (image outEntry : U32) (size : ℕ) (P : U32 → Prop) : Prop :=
  ∀ k, Visited m image outEntry size k →
    headerOffset m image k + (headerAt m image k).readSize size ≤ size →
    (headerAt m image k).Fits size → ∀ x, (headerAt m image k).Covers x → ¬ P x

/-- A header inside the image is read inside the image. -/
theorem HeadersInside.read {size : ℕ} (h : HeadersInside m image outEntry size) :
    ReadHeadersInside m image outEntry size := by
  intro k hk
  have hinside := h k hk
  have hpart := ((headerAt m image k).readSize_bounds size).2
  omega

/-- A visited header in front of an accepted prefix is regular. -/
theorem regular_of_visited {j : ℕ} (hvisited : Visited m image outEntry imageSize.toNat j)
    (haccepted : (headerAt m image j).Accepted imageSize.toNat)
    (hinside : headerOffset m image j +
      (headerAt m image j).readSize imageSize.toNat ≤ imageSize.toNat)
    (havoid : DestinationsAvoid m image outEntry imageSize.toNat
      (Within image imageSize.toNat)) :
    Regular m image imageSize.toNat j :=
  ⟨haccepted, hinside, fun x hx => havoid j hvisited hinside (haccepted hx.1) x hx⟩

/-- The first `k` turns of a loadable image, whose headers before `k` are accepted and read
inside it. -/
theorem load_run {k : ℕ} (hloadable : Loadable m image outEntry imageSize.toNat)
    (hk : k ≤ phnum m image) (haccepted : ∀ j < k, (headerAt m image j).Accepted imageSize.toNat)
    (hinside : ∀ j < k, headerOffset m image j +
      (headerAt m image j).readSize imageSize.toNat ≤ imageSize.toNat)
    (havoid : DestinationsAvoid m image outEntry imageSize.toNat
      (Within image imageSize.toNat)) :
    ∃ s turns, BeforeHeader m image imageSize.toNat k s ∧
      SameImage m s.mem image imageSize.toNat ∧
      load m image imageSize outEntry =
        loadSegments image imageSize outEntry (turns + 1) (BitVec.ofNat 16 k) s := by
  obtain ⟨hnot, -⟩ | ⟨-, s₀, hs₀, -, hload⟩ := load_eq m image imageSize outEntry
  · exact absurd hloadable hnot
  have hregular : ∀ j < k, Regular m image imageSize.toNat j := fun j hj =>
    regular_of_visited ⟨hloadable, by omega, fun i hi => haccepted i (by omega)⟩
      (haccepted j hj) (hinside j hj) havoid
  have hn : phnum m image < 2 ^ 16 := (m.load16 (image + 44#32)).isLt
  obtain ⟨s, hs, hrun⟩ := loadSegments_run hs₀ hloadable.2.1 hloadable.2.2.2 hk hregular
    outEntry (2 ^ 16 - k)
  have himage := hs.sameImage (Nat.le_of_lt imageSize.isLt) hregular
  refine ⟨s, 2 ^ 16 - k - 1, hs, himage, ?_⟩
  rw [hload, show (2 : ℕ) ^ 16 = 2 ^ 16 - k + k by omega, hrun]
  congr 1
  omega

/-- How a call ends when all visited headers are read inside the image and no segment is loaded over
it: behind the last entry with success, or at the first rejected entry. -/
theorem load_outcome (hloadable : Loadable m image outEntry imageSize.toNat)
    (hinside : ReadHeadersInside m image outEntry imageSize.toNat)
    (havoid : DestinationsAvoid m image outEntry imageSize.toNat
      (Within image imageSize.toNat)) :
    ∃ k, (∀ j < k, (headerAt m image j).Accepted imageSize.toNat) ∧
      (∀ o ∈ (load m image imageSize outEntry).2.reads, o < imageSize.toNat) ∧
      (k = phnum m image ∧ (load m image imageSize outEntry).1 = true ∧
          (load m image imageSize outEntry).2.mem =
            (⟨loaded m image k⟩ : Memory).store32 outEntry (m.load32 (image + 24#32)) ∨
        k < phnum m image ∧ ¬ (headerAt m image k).Accepted imageSize.toNat ∧
          (load m image imageSize outEntry).1 = false ∧
          (load m image imageSize outEntry).2.mem = ⟨loaded m image k⟩) := by
  classical
  have hend : ∃ k, k = phnum m image ∨ ¬ (headerAt m image k).Accepted imageSize.toNat :=
    ⟨_, .inl rfl⟩
  obtain ⟨k, hk, hfirst⟩ : ∃ k, (k = phnum m image ∨
      ¬ (headerAt m image k).Accepted imageSize.toNat) ∧ ∀ j < k, j ≠ phnum m image ∧
        (headerAt m image j).Accepted imageSize.toNat :=
    ⟨Nat.find hend, Nat.find_spec hend, fun j hj => by simpa using Nat.find_min hend hj⟩
  have hle : k ≤ phnum m image := by
    by_contra hlt
    exact (hfirst _ (by omega)).1 rfl
  have haccepted : ∀ j < k, (headerAt m image j).Accepted imageSize.toNat :=
    fun j hj => (hfirst j hj).2
  have hvisited {j : ℕ} (hjk : j ≤ k) (hj : j < phnum m image) :
      headerOffset m image j + (headerAt m image j).readSize imageSize.toNat ≤ imageSize.toNat :=
    hinside j ⟨hloadable, hj, fun i hi => haccepted i (by omega)⟩
  obtain ⟨s, turns, hs, himage, hload⟩ := load_run hloadable hle haccepted
    (fun j hj => hvisited (by omega) (by omega)) havoid
  have hsmem : s.mem = ⟨loaded m image k⟩ := Memory.ext (funext hs.bytes)
  refine ⟨k, haccepted, ?_⟩
  rw [hload]
  by_cases hlast : k = phnum m image
  · rw [hlast, loadSegments_exit himage hloadable.2.1]
    have hsize := hloadable.2.1
    unfold ehdrSize at hsize
    refine ⟨fun o ho => ?_, .inl ⟨rfl, rfl, ?_⟩⟩
    · have hlog := (readsInside_log s (by omega : 44 + 2 ≤ imageSize.toNat)).trans
        (readsInside_log _ (by omega : 24 + 4 ≤ imageSize.toNat))
      exact (hlog o ho).elim (hs.reads o) id
    · rw [← hlast, hsmem]
  · have hklt : k < phnum m image := by omega
    have hrejected := hk.resolve_left hlast
    have hreads := hs.reads_entry hloadable.2.1
    rw [loadSegments_turn himage hloadable.2.1 hloadable.2.2.2 hklt]
    set entered := ((s.log 44 2).log 28 4).log 42 2
    have hturn : TurnAt image imageSize.toNat (headerAt m image k) entered
        (loadSegment image imageSize (headerOffset m image k) entered) :=
      turnAt_loadSegment himage (hvisited le_rfl hklt)
        fun hfits => absurd (fun _ => hfits) hrejected
    have hstop := mt hturn.goesOn.mp hrejected
    simp only [hstop]
    refine ⟨fun o ho => (hturn.reads o ho).elim (hreads o) id, .inr ⟨hklt, hrejected, rfl, ?_⟩⟩
    refine Memory.ext (funext fun x => (hturn.bytes x).trans ?_)
    rw [if_neg fun hc => hrejected hc.1]
    exact hs.bytes x

/-- Of a visited header that is read beyond the image, when those before it are not, the last byte
that decides is read. -/
theorem lastRead_of_first_outside {k : ℕ} (hvisited : Visited m image outEntry imageSize.toNat k)
    (hbefore : ∀ j < k, headerOffset m image j +
      (headerAt m image j).readSize imageSize.toNat ≤ imageSize.toNat)
    (havoid : DestinationsAvoid m image outEntry imageSize.toNat
      (Within image imageSize.toNat)) :
    ∃ h : ProgramHeader, (headerOffset m image k + h.readSize imageSize.toNat ≤ imageSize.toNat ↔
        headerOffset m image k + (headerAt m image k).readSize imageSize.toNat ≤
          imageSize.toNat) ∧
      headerOffset m image k + h.readSize imageSize.toNat - 1 ∈
        (load m image imageSize outEntry).2.reads := by
  obtain ⟨hloadable, hk, haccepted⟩ := hvisited
  obtain ⟨s, turns, hs, himage, hload⟩ := load_run hloadable (Nat.le_of_lt hk) haccepted hbefore
    havoid
  set entered := ((s.log 44 2).log 28 4).log 42 2 with hentered
  refine ⟨programHeader entered.mem image (headerOffset m image k), himage.readInside_iff, ?_⟩
  rw [hload, loadSegments_turn himage hloadable.2.1 hloadable.2.2.2 hk, ← hentered]
  have hbody := lastRead_mem_loadSegment image imageSize (headerOffset m image k) entered
  dsimp only
  split_ifs
  · exact mem_reads_loadSegments _ _ _ _ _ hbody
  · exact hbody

/-- When some visited header is not read inside the image, there is a first one. -/
theorem exists_first_outside (h : ¬ ReadHeadersInside m image outEntry imageSize.toNat) :
    ∃ k, Visited m image outEntry imageSize.toNat k ∧
      imageSize.toNat < headerOffset m image k + (headerAt m image k).readSize imageSize.toNat ∧
      ∀ j < k, headerOffset m image j + (headerAt m image j).readSize imageSize.toNat ≤
        imageSize.toNat := by
  classical
  unfold ReadHeadersInside at h
  push Not at h
  obtain ⟨hvisited, hout⟩ := Nat.find_spec h
  refine ⟨Nat.find h, hvisited, hout, fun j hj => ?_⟩
  -- What the loop has come to before the first header, it has visited as well.
  have hbefore : Visited m image outEntry imageSize.toNat j :=
    ⟨hvisited.1, hj.trans hvisited.2.1, fun i hi => hvisited.2.2 i (hi.trans hj)⟩
  exact Nat.le_of_not_lt fun hlt => Nat.find_min h hj ⟨hbefore, hlt⟩

/-- All bytes of the image that are read lie inside it exactly when, of every visited program
header, the fields up to the one that decides do. -/
theorem load_reads_inside_iff
    (havoid : DestinationsAvoid m image outEntry imageSize.toNat
      (Within image imageSize.toNat)) :
    (∀ o ∈ (load m image imageSize outEntry).2.reads, o < imageSize.toNat) ↔
      ReadHeadersInside m image outEntry imageSize.toNat := by
  constructor
  · intro hreads
    by_contra houtside
    obtain ⟨k, hvisited, hout, hbefore⟩ := exists_first_outside houtside
    obtain ⟨h, hsame, hlast⟩ := lastRead_of_first_outside hvisited hbefore havoid
    have hin := hreads _ hlast
    exact absurd (hsame.mp (by omega)) (by omega)
  · intro hinside
    obtain ⟨-, -, -, hreads⟩ | ⟨hloadable, -⟩ := load_eq m image imageSize outEntry
    · exact hreads
    · obtain ⟨-, -, hreads, -⟩ := load_outcome hloadable hinside havoid
      exact hreads

/-- The one header of `oneSegment` that the loop can visit. -/
theorem oneSegment_visited {k : ℕ} (h : Visited oneSegment 0x100000#32 0x9000#32 88 k) : k = 0 := by
  have hphnum : phnum oneSegment 0x100000#32 = 1 := by decide
  have hk := h.2.1
  omega

/-- The segment of `oneSegment` goes to `0x200000`, away from the image and from `*out_entry`. -/
theorem oneSegment_avoids :
    DestinationsAvoid oneSegment 0x100000#32 0x9000#32 88
      fun x => Within 0x100000#32 88 x ∨ Within 0x9000#32 4 x := by
  intro k hk _ _ x hx
  rw [oneSegment_visited hk] at hx
  have hrange : Within 0x200000#32 8 x := hx.2
  exact not_or.mpr ⟨Apart.not_within (by decide) hrange, Apart.not_within (by decide) hrange⟩

/-- The reads of loading `oneSegment`. -/
theorem oneSegment_reads_inside_iff :
    (∀ o ∈ (load oneSegment 0x100000 88 0x9000).2.reads, o < 88) ↔
      ReadHeadersInside oneSegment 0x100000 0x9000 88 :=
  @load_reads_inside_iff oneSegment 0x100000#32 88#32 0x9000#32
    fun k hk hin hfits x hx h => oneSegment_avoids k hk hin hfits x hx (.inl h)

/-- Loading `strideZero`, none of whose segments is loaded over the image, reads the
program header that begins where the image ends. -/
theorem strideZero_reads_outside :
    DestinationsAvoid strideZero 0x100000#32 0x9000#32 52 (Within 0x100000#32 52) ∧
      52 ∈ (load strideZero 0x100000#32 52#32 0x9000#32).2.reads := by
  refine ⟨fun k hk hin => ?_, by decide⟩
  have hphnum : phnum strideZero 0x100000#32 = 1 := by decide
  have hzero : k = 0 := by have := hk.2.1; omega
  rw [hzero] at hin
  exact absurd hin (by decide)

/-- A load succeeds exactly when all checks hold on the image, and then memory is what the program
header table describes, with the last covering segment deciding each byte. -/
theorem load_correct (hinside : HeadersInside m image outEntry imageSize.toNat)
    (havoid : DestinationsAvoid m image outEntry imageSize.toNat
      fun x => Within image imageSize.toNat x ∨ Within outEntry 4 x) :
    ((load m image imageSize outEntry).1 = true ↔
      Loadable m image outEntry imageSize.toNat ∧
        ∀ i < phnum m image, (headerAt m image i).Accepted imageSize.toNat) ∧
    ((load m image imageSize outEntry).1 = true →
      (∀ x, ¬ Within outEntry 4 x →
        (∀ i < phnum m image, (headerAt m image i).Covers x →
          (∀ j, i < j → j < phnum m image → ¬ (headerAt m image j).Covers x) →
          (load m image imageSize outEntry).2.mem.byte x =
            (headerAt m image i).content m image x) ∧
        ((∀ i < phnum m image, ¬ (headerAt m image i).Covers x) →
          (load m image imageSize outEntry).2.mem.byte x = m.byte x)) ∧
      (load m image imageSize outEntry).2.mem.load32 outEntry = m.load32 (image + 24#32)) := by
  obtain ⟨hnot, hfail, -⟩ | ⟨hloadable, -⟩ := load_eq m image imageSize outEntry
  · simp [hfail, hnot]
  obtain ⟨k, haccepted, -, ⟨rfl, hok, hmem⟩ | ⟨hk, hrejected, hfail, -⟩⟩ :=
    load_outcome hloadable hinside.read fun j hv hin hfits x hx h =>
      havoid j hv hin hfits x hx (.inl h)
  · refine ⟨iff_of_true hok ⟨hloadable, haccepted⟩, fun _ => ⟨fun x hx => ⟨?_, ?_⟩, ?_⟩⟩
    · intro i hi hcovers hlast
      rw [hmem, Memory.byte_store32_of_not_within hx]
      exact loaded_of_last hi hcovers hlast
    · intro hnone
      rw [hmem, Memory.byte_store32_of_not_within hx]
      exact loaded_of_not_covered hnone
    · rw [hmem, Memory.load32_store32_self]
  · refine ⟨?_, fun h => ?_⟩
    · rw [hfail]
      exact ⟨fun h => Bool.noConfusion h, fun h => absurd (h.2 k hk) hrejected⟩
    · rw [hfail] at h
      exact Bool.noConfusion h

/-- The load of `oneSegment` succeeds exactly when its checks hold, and then its
segment and entry point are in place. -/
theorem oneSegment_load_correct :
    ((load oneSegment 0x100000 88 0x9000).1 = true ↔
      Loadable oneSegment 0x100000 0x9000 88 ∧
        ∀ i < phnum oneSegment 0x100000, (headerAt oneSegment 0x100000 i).Accepted 88) ∧
    ((load oneSegment 0x100000 88 0x9000).1 = true →
      (∀ x, ¬ Within 0x9000#32 4 x →
        (∀ i < phnum oneSegment 0x100000, (headerAt oneSegment 0x100000 i).Covers x →
          (∀ j, i < j → j < phnum oneSegment 0x100000 →
            ¬ (headerAt oneSegment 0x100000 j).Covers x) →
          (load oneSegment 0x100000 88 0x9000).2.mem.byte x =
            (headerAt oneSegment 0x100000 i).content oneSegment 0x100000 x) ∧
        ((∀ i < phnum oneSegment 0x100000, ¬ (headerAt oneSegment 0x100000 i).Covers x) →
          (load oneSegment 0x100000 88 0x9000).2.mem.byte x = oneSegment.byte x)) ∧
      (load oneSegment 0x100000 88 0x9000).2.mem.load32 0x9000 =
        oneSegment.load32 (0x100000 + 24#32)) :=
  @load_correct oneSegment 0x100000#32 88#32 0x9000#32
    (fun k hk => by rw [oneSegment_visited hk]; decide) oneSegment_avoids

/-- Turns at headers that are not `PT_LOAD`, wherever they lie, leave memory alone. -/
theorem loadSegments_skip {k : ℕ} {s : Loader} (hs : s.mem = m)
    (hloadable : Loadable m image outEntry imageSize.toNat) (hk : k ≤ phnum m image)
    (hskip : ∀ j < k, (headerAt m image j).type ≠ ptLoad) (turns : ℕ) :
    ∃ s', s'.mem = m ∧ loadSegments image imageSize outEntry (turns + k) 0#16 s =
      loadSegments image imageSize outEntry turns (BitVec.ofNat 16 k) s' := by
  induction k generalizing turns with
  | zero => exact ⟨s, hs, rfl⟩
  | succ k ih =>
    obtain ⟨s', hs', hrun⟩ := ih (by omega) (fun j hj => hskip j (by omega)) (turns + 1)
    have himage : SameImage m s'.mem image imageSize.toNat := hs' ▸ fun _ _ => rfl
    have htype : (programHeader (((s'.log 44 2).log 28 4).log 42 2).mem image
        (headerOffset m image k)).type ≠ ptLoad := by
      change (programHeader s'.mem image (headerOffset m image k)).type ≠ ptLoad
      rw [hs']
      exact hskip k (by omega)
    have hstep := loadSegments_turn himage hloadable.2.1 hloadable.2.2.2 hk outEntry turns
    rw [loadSegment_skip htype] at hstep
    refine ⟨(((s'.log 44 2).log 28 4).log 42 2).log (headerOffset m image k) 4, hs',
      Eq.trans ?_ hstep⟩
    rw [← hrun]
    congr 1
    omega

/-- A load that fails assigns nothing to `*out_entry` and leaves in memory at most the segments in
front of the rejected header. It changes nothing at all, for any image, when a check
before the loop fails or no `PT_LOAD` header precedes the rejected one. -/
theorem failedLoad_changes (hfail : (load m image imageSize outEntry).1 = false) :
    (¬ Loadable m image outEntry imageSize.toNat → (load m image imageSize outEntry).2.mem = m) ∧
    (∀ k, Visited m image outEntry imageSize.toNat k →
      ¬ (headerAt m image k).Accepted imageSize.toNat →
      (∀ j < k, (headerAt m image j).type ≠ ptLoad) →
      (load m image imageSize outEntry).2.mem = m) ∧
    (HeadersInside m image outEntry imageSize.toNat →
      DestinationsAvoid m image outEntry imageSize.toNat (Within image imageSize.toNat) →
      ∀ x, (load m image imageSize outEntry).2.mem.byte x ≠ m.byte x →
        ∃ k, Visited m image outEntry imageSize.toNat k ∧
          ¬ (headerAt m image k).Accepted imageSize.toNat ∧
          ∃ j < k, (headerAt m image j).Covers x) := by
  obtain ⟨hnot, -, hmem, -⟩ | ⟨hloadable, s, -, hsmem, hload⟩ := load_eq m image imageSize outEntry
  · exact ⟨fun _ => hmem, fun _ hk => absurd hk.1 hnot, fun _ _ x hx => absurd (by rw [hmem]) hx⟩
  refine ⟨fun hnot => absurd hloadable hnot, fun k hk hrejected hskip => ?_, ?_⟩
  · have hn : phnum m image < 2 ^ 16 := (m.load16 (image + 44#32)).isLt
    have hklt := hk.2.1
    obtain ⟨s', hs', hrun⟩ := loadSegments_skip hsmem hloadable
      (Nat.le_of_lt hklt) hskip (2 ^ 16 - k - 1 + 1)
    have himage : SameImage m s'.mem image imageSize.toNat := hs' ▸ fun _ _ => rfl
    set entered := ((s'.log 44 2).log 28 4).log 42 2
    have hrejected' : ¬ (programHeader entered.mem image (headerOffset m image k)).Accepted
        imageSize.toNat := by
      change ¬ (programHeader s'.mem image (headerOffset m image k)).Accepted imageSize.toNat
      rw [hs']
      exact hrejected
    have hstop := loadSegment_reject hrejected'
    rw [hload, show (2 : ℕ) ^ 16 = 2 ^ 16 - k - 1 + 1 + k by omega, hrun,
      loadSegments_turn himage hloadable.2.1 hloadable.2.2.2 hklt]
    dsimp only
    rw [if_neg (by rw [hstop.1]; exact Bool.noConfusion)]
    exact hstop.2.trans hs'
  · intro hinside havoid x hx
    obtain ⟨k, haccepted, -, ⟨-, hok, -⟩ | ⟨hk, hrejected, -, hmem⟩⟩ :=
      load_outcome hloadable hinside.read havoid
    · rw [hfail] at hok
      exact Bool.noConfusion hok
    · rw [hmem] at hx
      exact ⟨k, ⟨hloadable, hk, haccepted⟩, hrejected, exists_covers_of_loaded_ne hx⟩

/-- The load of `secondTooLong` fails after its first segment has replaced the byte at
`0x200000`. -/
theorem secondTooLong_changes_memory :
    (load secondTooLong 0x100000#32 120#32 0x9000#32).1 = false ∧
      (headerAt secondTooLong 0x100000#32 0).Covers 0x200000#32 ∧
      (load secondTooLong 0x100000#32 120#32 0x9000#32).2.mem.byte 0x200000#32 ≠
        secondTooLong.byte 0x200000#32 := by
  decide

/-- What the failed load of `secondTooLong` may have changed. -/
theorem secondTooLong_failedLoad_changes :
    (¬ Loadable secondTooLong 0x100000 0x9000 120 →
      (load secondTooLong 0x100000 120 0x9000).2.mem = secondTooLong) ∧
    (∀ k, Visited secondTooLong 0x100000 0x9000 120 k →
      ¬ (headerAt secondTooLong 0x100000 k).Accepted 120 →
      (∀ j < k, (headerAt secondTooLong 0x100000 j).type ≠ ptLoad) →
      (load secondTooLong 0x100000 120 0x9000).2.mem = secondTooLong) ∧
    (HeadersInside secondTooLong 0x100000 0x9000 120 →
      DestinationsAvoid secondTooLong 0x100000 0x9000 120 (Within 0x100000 120) →
      ∀ x, (load secondTooLong 0x100000 120 0x9000).2.mem.byte x ≠ secondTooLong.byte x →
        ∃ k, Visited secondTooLong 0x100000 0x9000 120 k ∧
          ¬ (headerAt secondTooLong 0x100000 k).Accepted 120 ∧
          ∃ j < k, (headerAt secondTooLong 0x100000 j).Covers x) :=
  @failedLoad_changes secondTooLong 0x100000#32 120#32 0x9000#32 (by decide)

end

end AlderKernel.Elf
