import AlderKernel.Elf.Image

/-!
# What the loader's loops do

One lemma for each loop of `elf32_load`, then the loop over the program headers:
after its first `k` turns memory is what the first `k` entries of the table
describe. The image is assumed to stay in place, that is, no visited segment is
loaded over it.
-/

namespace AlderKernel.Elf

open Machine

/-- Every image offset recorded in `s'` was recorded in `s` already or is below `size`. -/
def ReadsInside (size : ℕ) (s s' : Loader) : Prop := ∀ o ∈ s'.reads, o ∈ s.reads ∨ o < size

/-- Without a step nothing is read. -/
theorem ReadsInside.refl (size : ℕ) (s : Loader) : ReadsInside size s s := fun _ => Or.inl

/-- Two steps that read inside read inside together. -/
theorem ReadsInside.trans {size : ℕ} {s s' s'' : Loader} (h : ReadsInside size s s')
    (h' : ReadsInside size s' s'') : ReadsInside size s s'' :=
  fun o ho => (h' o ho).elim (h o) Or.inr

/-- What lies inside a part of the image lies inside the image. -/
theorem ReadsInside.mono {size larger : ℕ} {s s' : Loader} (h : ReadsInside size s s')
    (hle : size ≤ larger) : ReadsInside larger s s' :=
  fun o ho => (h o ho).imp_right fun ho => Nat.lt_of_lt_of_le ho hle

/-- A read of `n` bytes below `size` is inside. -/
theorem readsInside_log {size off n : ℕ} (s : Loader) (h : off + n ≤ size) :
    ReadsInside size s (s.log off n) := by
  intro o ho
  simp only [Loader.log, List.mem_append, List.mem_range'_1] at ho
  exact ho.imp_right fun ho => by omega

/-- Recorded reads stay recorded. -/
theorem Loader.mem_reads_log {s : Loader} {o : ℕ} (off n : ℕ) (ho : o ∈ s.reads) :
    o ∈ (s.log off n).reads := List.mem_append_left _ ho

/-- The bytes that are read are recorded. -/
theorem Loader.mem_log_self (s : Loader) {off n o : ℕ} (hle : off ≤ o) (hlt : o < off + n) :
    o ∈ (s.log off n).reads := List.mem_append_right _ (List.mem_range'_1.mpr ⟨hle, hlt⟩)

/-- A computation on the loader state that only looks at the ELF header, and
answers whether `P` holds. -/
structure Decides (s : Loader) (r : Bool × Loader) (P : Prop) : Prop where
  result : r.1 = true ↔ P
  mem : r.2.mem = s.mem
  reads : ReadsInside ehdrSize s r.2

/-- One byte comparison in front of further checks. -/
theorem decides_expect8 {s : Loader} {image : U32} {off : ℕ} {v : U8}
    {next : Loader → Bool × Loader} {P : Prop} (hoff : off + 1 ≤ ehdrSize)
    (h : Decides (s.log off 1) (next (s.log off 1)) P) :
    Decides s (s.expect8 image off v next) (imageByte s.mem image off = v ∧ P) := by
  have hlog := readsInside_log s hoff
  change Decides s (if imageByte s.mem image off ≠ v then (false, s.log off 1)
    else next (s.log off 1)) _
  by_cases hv : imageByte s.mem image off = v
  · rw [if_neg (not_not.mpr hv)]
    exact ⟨h.result.trans (and_iff_right hv).symm, h.mem, hlog.trans h.reads⟩
  · rw [if_pos hv]
    exact ⟨by simp [hv], rfl, hlog⟩

/-- One comparison of a 16-bit field in front of further checks. -/
theorem decides_expect16 {s : Loader} {image : U32} {off : ℕ} {v : U16}
    {next : Loader → Bool × Loader} {P : Prop} (hoff : off + 2 ≤ ehdrSize)
    (h : Decides (s.log off 2) (next (s.log off 2)) P) :
    Decides s (s.expect16 image off v next)
      (s.mem.load16 (image + BitVec.ofNat 32 off) = v ∧ P) := by
  have hlog := readsInside_log s hoff
  change Decides s (if s.mem.load16 (image + BitVec.ofNat 32 off) ≠ v then (false, s.log off 2)
    else next (s.log off 2)) _
  by_cases hv : s.mem.load16 (image + BitVec.ofNat 32 off) = v
  · rw [if_neg (not_not.mpr hv)]
    exact ⟨h.result.trans (and_iff_right hv).symm, h.mem, hlog.trans h.reads⟩
  · rw [if_pos hv]
    exact ⟨by simp [hv], rfl, hlog⟩

/-- The last check, that `e_phnum` is not zero. -/
theorem decides_phnum (image : U32) (s : Loader) :
    Decides s (let (phnum, s) := s.read16 image 44
      if phnum = 0#16 then (false, s) else (true, s)) (s.mem.load16 (image + 44#32) ≠ 0#16) := by
  have hlog : ReadsInside ehdrSize s (s.log 44 2) := readsInside_log s (by decide)
  change Decides s (if s.mem.load16 (image + 44#32) = 0#16 then (false, s.log 44 2)
    else (true, s.log 44 2)) _
  by_cases hphnum : s.mem.load16 (image + 44#32) = 0#16
  · rw [if_pos hphnum]
    exact ⟨by simp [hphnum], rfl, hlog⟩
  · rw [if_neg hphnum]
    exact ⟨by simp [hphnum], rfl, hlog⟩

/-- The header checks answer whether `HeaderOk` holds. -/
theorem decides_checkHeader (image : U32) (s : Loader) :
    Decides s (checkHeader image s) (HeaderOk s.mem image) := by
  unfold checkHeader HeaderOk
  repeat' refine decides_expect8 (by decide) ?_
  repeat' refine decides_expect16 (by decide) ?_
  exact decides_phnum image _

/-- A byte is written at index `b`, and others from the next index on. -/
theorem filled_succ {m m' : Memory} {dest b n : U32} (f f' : ℕ → U8) (hlt : b < n)
    (hself : m'.byte (dest + b) = f b.toNat) (hother : ∀ x ≠ dest + b, m'.byte x = m.byte x)
    (hf : ∀ k < n.toNat, f' k = f k) (x : U32) :
    (if (b + 1#32).toNat ≤ (x - dest).toNat ∧ (x - dest).toNat < n.toNat then
      f' (x - dest).toNat else m'.byte x) =
    if b.toNat ≤ (x - dest).toNat ∧ (x - dest).toNat < n.toNat then
      f (x - dest).toNat else m.byte x := by
  have hbnat : b.toNat < n.toNat := hlt
  have hsucc : (b + 1#32).toNat = b.toNat + 1 := by bv_omega
  rw [hsucc]
  by_cases hx : x = dest + b
  · have hoff : (x - dest).toNat = b.toNat := by bv_omega
    rw [hoff, if_neg (by omega), if_pos (by omega), hx, hself]
  · have hoff : (x - dest).toNat ≠ b.toNat := by bv_omega
    by_cases hrange : b.toNat ≤ (x - dest).toNat ∧ (x - dest).toNat < n.toNat
    · rw [if_pos hrange, if_pos (by omega), hf _ hrange.2]
    · rw [if_neg hrange, if_neg (by omega), hother x hx]

/-- The copy loop from index `b` on: the file bytes arrive from `dest + b` on and
nothing else changes. -/
theorem copyFile_spec {image filesz : U32} {size ph src : ℕ} {s : Loader} (dest : U32)
    (turns : ℕ) (b : U32)
    (hsize : size ≤ 2 ^ 32) (hph : ph + 24 ≤ size)
    (hfilesz : s.mem.load32 (image + BitVec.ofNat 32 (ph + 16)) = filesz)
    (hsrc : src + filesz.toNat ≤ size)
    (hapart : ∀ x, Within dest filesz.toNat x → ¬ Within image size x)
    (hb : b.toNat ≤ filesz.toNat) (hturns : filesz.toNat < b.toNat + turns) :
    (∀ x, (copyFile image ph src dest turns b s).mem.byte x =
      if b.toNat ≤ (x - dest).toNat ∧ (x - dest).toNat < filesz.toNat then
        imageByte s.mem image (src + (x - dest).toNat)
      else s.mem.byte x) ∧
      ReadsInside size s (copyFile image ph src dest turns b s) := by
  induction turns generalizing b s with
  | zero => omega
  | succ turns ih =>
    simp only [copyFile, Loader.read32, Loader.read8, hfilesz]
    have hlog : ReadsInside size s (s.log (ph + 16) 4) := readsInside_log s (by omega)
    by_cases hlt : b < filesz
    · rw [if_pos hlt]
      have hbnat : b.toNat < filesz.toNat := hlt
      have hsucc : (b + 1#32).toNat = b.toNat + 1 := by bv_omega
      let v := imageByte s.mem image (src + b.toNat)
      let next : Loader := ((s.log (ph + 16) 4).log (src + b.toNat) 1).write (dest + b) v
      have hin : Within dest filesz.toNat (dest + b) := by
        unfold Within
        bv_omega
      have himage : SameImage s.mem next.mem image size :=
        .of_unchanged hsize fun x hx => Memory.byte_write_of_ne fun he => hapart _ hin (he ▸ hx)
      have hfilesz' : next.mem.load32 (image + BitVec.ofNat 32 (ph + 16)) = filesz :=
        (himage.load32 (by omega)).trans hfilesz
      obtain ⟨hbytes, hreads⟩ := ih (s := next) (b + 1#32) hfilesz' (by omega) (by omega)
      refine ⟨fun x => ?_, (hlog.trans (readsInside_log _ (by omega))).trans hreads⟩
      refine (hbytes x).trans (filled_succ (fun k => imageByte s.mem image (src + k))
        (fun k => imageByte next.mem image (src + k)) hlt ?_ ?_ ?_ x)
      · exact Memory.byte_write_self _ _ _
      · exact fun x hx => Memory.byte_write_of_ne hx
      · exact fun k hk => himage _ (by omega)
    · rw [if_neg hlt]
      have hle : ¬ b.toNat < filesz.toNat := hlt
      exact ⟨fun x => (if_neg (by omega)).symm, hlog⟩

/-- The zeroing loop from index `b` on: zeros arrive from `dest + b` on and nothing
else changes. -/
theorem zeroRest_spec {image memsz : U32} {size ph : ℕ} {s : Loader} (dest : U32) (turns : ℕ)
    (b : U32)
    (hsize : size ≤ 2 ^ 32) (hph : ph + 24 ≤ size)
    (hmemsz : s.mem.load32 (image + BitVec.ofNat 32 (ph + 20)) = memsz)
    (hapart : ∀ x, Within dest memsz.toNat x → ¬ Within image size x)
    (hb : b.toNat ≤ memsz.toNat) (hturns : memsz.toNat < b.toNat + turns) :
    (∀ x, (zeroRest image ph dest turns b s).mem.byte x =
      if b.toNat ≤ (x - dest).toNat ∧ (x - dest).toNat < memsz.toNat then 0#8
      else s.mem.byte x) ∧
      ReadsInside size s (zeroRest image ph dest turns b s) := by
  induction turns generalizing b s with
  | zero => omega
  | succ turns ih =>
    simp only [zeroRest, Loader.read32, hmemsz]
    have hlog : ReadsInside size s (s.log (ph + 20) 4) := readsInside_log s (by omega)
    by_cases hlt : b < memsz
    · rw [if_pos hlt]
      have hbnat : b.toNat < memsz.toNat := hlt
      have hsucc : (b + 1#32).toNat = b.toNat + 1 := by bv_omega
      let next : Loader := (s.log (ph + 20) 4).write (dest + b) 0#8
      have hin : Within dest memsz.toNat (dest + b) := by
        unfold Within
        bv_omega
      have himage : SameImage s.mem next.mem image size :=
        .of_unchanged hsize fun x hx => Memory.byte_write_of_ne fun he => hapart _ hin (he ▸ hx)
      have hmemsz' : next.mem.load32 (image + BitVec.ofNat 32 (ph + 20)) = memsz :=
        (himage.load32 (by omega)).trans hmemsz
      obtain ⟨hbytes, hreads⟩ := ih (s := next) (b + 1#32) hmemsz' (by omega) (by omega)
      refine ⟨fun x => ?_, hlog.trans hreads⟩
      refine (hbytes x).trans
        (filled_succ (fun _ => 0#8) (fun _ => 0#8) hlt ?_ ?_ (fun _ _ => rfl) x)
      · exact Memory.byte_write_self _ _ _
      · exact fun x hx => Memory.byte_write_of_ne hx
    · rw [if_neg hlt]
      have hle : ¬ b.toNat < memsz.toNat := hlt
      exact ⟨fun x => (if_neg (by omega)).symm, hlog⟩

/-- The two comparisons on a segment are the exact-integer conditions. -/
theorem fits_iff {h : ProgramHeader} {imageSize : U32} :
    h.Fits imageSize.toNat ↔
      ¬ imageSize < h.offset ∧ ¬ imageSize - h.offset < h.filesz ∧ ¬ h.memsz < h.filesz := by
  unfold ProgramHeader.Fits
  bv_omega

/-- The body of the loop, with the header's fields named. -/
theorem loadSegment_eq (image imageSize : U32) (ph : ℕ) (s : Loader) :
    loadSegment image imageSize ph s =
      let h := programHeader s.mem image ph
      let s1 := s.log ph 4
      let s2 := s1.log (ph + 4) 4
      let s3 := s2.log (ph + 16) 4
      let s4 := s3.log (ph + 20) 4
      let copied := copyFile image ph h.offset.toNat h.vaddr (2 ^ 32) 0#32 (s4.log (ph + 8) 4)
      if h.type ≠ ptLoad then (true, s1) else
      if imageSize < h.offset then (false, s2) else
      if imageSize - h.offset < h.filesz then (false, s3) else
      if h.memsz < h.filesz then (false, s4) else
      (true, zeroRest image ph h.vaddr (2 ^ 32)
        (copied.mem.load32 (image + BitVec.ofNat 32 (ph + 16))) (copied.log (ph + 16) 4)) := rfl

/-- Copying and zeroing a fitting segment: its range holds the described content and
nothing else changes. -/
theorem copy_zero_spec {image : U32} {size ph : ℕ} {s : Loader} {h : ProgramHeader}
    (hsize : size < 2 ^ 32) (hph : ph + 24 ≤ size)
    (hheader : h = programHeader s.mem image ph) (hfits : h.Fits size)
    (hapart : ∀ x, Within h.vaddr h.memsz.toNat x → ¬ Within image size x)
    (copied : Loader) (hcopied : copied = copyFile image ph h.offset.toNat h.vaddr (2 ^ 32) 0#32 s)
    (zeroed : Loader) (hzeroed : zeroed = zeroRest image ph h.vaddr (2 ^ 32)
      (copied.mem.load32 (image + BitVec.ofNat 32 (ph + 16))) (copied.log (ph + 16) 4)) :
    (∀ x, zeroed.mem.byte x =
      if Within h.vaddr h.memsz.toNat x then h.content s.mem image x else s.mem.byte x) ∧
      ReadsInside size s zeroed := by
  obtain ⟨hsrc, hle⟩ := hfits
  have hfilesz : s.mem.load32 (image + BitVec.ofNat 32 (ph + 16)) = h.filesz := by rw [hheader]; rfl
  have hmemsz : s.mem.load32 (image + BitVec.ofNat 32 (ph + 20)) = h.memsz := by rw [hheader]; rfl
  obtain ⟨hcopy, hcopyReads⟩ := copyFile_spec h.vaddr (2 ^ 32) 0#32 (by omega) hph hfilesz hsrc
    (fun x hx => hapart x (Nat.lt_of_lt_of_le hx hle)) (by simp) (by simp; omega)
  rw [← hcopied] at hcopy hcopyReads
  have himage : SameImage s.mem copied.mem image size := by
    refine .of_unchanged (by omega) fun x hx => (hcopy x).trans (if_neg fun hin => ?_)
    exact hapart x (Nat.lt_of_lt_of_le hin.2 hle) hx
  have hfilesz' : copied.mem.load32 (image + BitVec.ofNat 32 (ph + 16)) = h.filesz :=
    (himage.load32 (by omega)).trans hfilesz
  have hmemsz' : (copied.log (ph + 16) 4).mem.load32 (image + BitVec.ofNat 32 (ph + 20)) =
      h.memsz := (himage.load32 (by omega)).trans hmemsz
  obtain ⟨hzero, hzeroReads⟩ := zeroRest_spec h.vaddr (2 ^ 32) h.filesz (by omega) hph hmemsz'
    hapart hle (by omega)
  rw [hfilesz'] at hzeroed
  rw [← hzeroed] at hzero hzeroReads
  refine ⟨fun x => ?_, (hcopyReads.trans (readsInside_log _ (by omega))).trans hzeroReads⟩
  rw [hzero x]
  have hcopyx : (copied.log (ph + 16) 4).mem.byte x = _ := hcopy x
  rw [hcopyx]
  have hwithin : Within h.vaddr h.memsz.toNat x ↔ (x - h.vaddr).toNat < h.memsz.toNat := Iff.rfl
  have hzero' : (0#32 : U32).toNat = 0 := rfl
  unfold ProgramHeader.content
  by_cases hfile : (x - h.vaddr).toNat < h.filesz.toNat
  · rw [if_neg (by omega), if_pos (by omega), if_pos (hwithin.mpr (by omega)), if_pos hfile]
  · by_cases hmem : (x - h.vaddr).toNat < h.memsz.toNat
    · rw [if_pos (by omega), if_pos (hwithin.mpr hmem), if_neg hfile]
    · rw [if_neg (by omega), if_neg (by omega), if_neg (mt hwithin.mp hmem)]

/-- The copy loop keeps what was recorded. -/
theorem mem_reads_copyFile (image : U32) (ph src : ℕ) (dest : U32) (turns : ℕ) (b : U32)
    {s : Loader} {o : ℕ} (ho : o ∈ s.reads) :
    o ∈ (copyFile image ph src dest turns b s).reads := by
  induction turns generalizing b s with
  | zero => exact ho
  | succ turns ih =>
    simp only [copyFile]
    split
    · exact ih _ (Loader.mem_reads_log _ _ (Loader.mem_reads_log _ _ ho))
    · exact Loader.mem_reads_log _ _ ho

/-- The zeroing loop keeps what was recorded. -/
theorem mem_reads_zeroRest (image : U32) (ph : ℕ) (dest : U32) (turns : ℕ) (b : U32)
    {s : Loader} {o : ℕ} (ho : o ∈ s.reads) : o ∈ (zeroRest image ph dest turns b s).reads := by
  induction turns generalizing b s with
  | zero => exact ho
  | succ turns ih =>
    simp only [zeroRest]
    split
    · exact ih _ (Loader.mem_reads_log _ _ ho)
    · exact Loader.mem_reads_log _ _ ho

/-- The body of the loop keeps what was recorded. -/
theorem mem_reads_loadSegment (image imageSize : U32) (ph : ℕ) {s : Loader} {o : ℕ}
    (ho : o ∈ s.reads) : o ∈ (loadSegment image imageSize ph s).2.reads := by
  have h1 := Loader.mem_reads_log ph 4 ho
  have h2 := Loader.mem_reads_log (ph + 4) 4 h1
  have h3 := Loader.mem_reads_log (ph + 16) 4 h2
  have h4 := Loader.mem_reads_log (ph + 20) 4 h3
  rw [loadSegment_eq]
  dsimp only
  split_ifs
  · exact h1
  · exact h2
  · exact h3
  · exact h4
  · exact mem_reads_zeroRest _ _ _ _ _ (Loader.mem_reads_log _ _
      (mem_reads_copyFile _ _ _ _ _ _ (Loader.mem_reads_log _ _ h4)))

/-- The wrapping comparisons of the loop body decide how much of a header is read. -/
theorem readSize_eq (h : ProgramHeader) (imageSize : U32) :
    h.readSize imageSize.toNat = if h.type ≠ ptLoad then 4 else if imageSize < h.offset then 8
      else if imageSize - h.offset < h.filesz then 20 else 24 := by
  have hbehind : imageSize.toNat < h.offset.toNat ↔ imageSize < h.offset := Iff.rfl
  unfold ProgramHeader.readSize
  rw [ite_congr rfl (fun _ => rfl)
    fun _ => ite_congr (propext hbehind) (fun _ => rfl) fun hin => ?_]
  refine ite_congr (propext ?_) (fun _ => rfl) fun _ => rfl
  bv_omega

/-- The last byte that is read of a header is recorded. -/
theorem lastRead_mem_loadSegment (image imageSize : U32) (ph : ℕ) (s : Loader) :
    ph + (programHeader s.mem image ph).readSize imageSize.toNat - 1 ∈
      (loadSegment image imageSize ph s).2.reads := by
  have hlast (t : Loader) (off : ℕ) : off + 4 - 1 ∈ (t.log off 4).reads :=
    Loader.mem_log_self t (by omega) (by omega)
  rw [loadSegment_eq, readSize_eq]
  dsimp only
  split_ifs
  · exact hlast _ ph
  · exact hlast _ (ph + 4)
  · exact hlast _ (ph + 16)
  · exact hlast _ (ph + 20)
  · exact mem_reads_zeroRest _ _ _ _ _ (Loader.mem_reads_log _ _
      (mem_reads_copyFile _ _ _ _ _ _ (Loader.mem_reads_log _ _ (hlast _ (ph + 20)))))

/-- A header of another type than `PT_LOAD` is passed over. -/
theorem loadSegment_skip {image imageSize : U32} {ph : ℕ} {s : Loader}
    (htype : (programHeader s.mem image ph).type ≠ ptLoad) :
    loadSegment image imageSize ph s = (true, s.log ph 4) := by
  rw [loadSegment_eq]
  exact if_pos htype

/-- A rejected header, wherever it lies, stops the loop with memory untouched. -/
theorem loadSegment_reject {image imageSize : U32} {ph : ℕ} {s : Loader}
    (hrejected : ¬ (programHeader s.mem image ph).Accepted imageSize.toNat) :
    (loadSegment image imageSize ph s).1 = false ∧
      (loadSegment image imageSize ph s).2.mem = s.mem := by
  have htype : (programHeader s.mem image ph).type = ptLoad := by
    by_contra htype
    exact hrejected fun h => absurd h htype
  have hcases := mt fits_iff.mpr fun hfits => hrejected fun _ => hfits
  rw [loadSegment_eq]
  dsimp only
  rw [if_neg (not_not.mpr htype)]
  split_ifs with ho hf hm
  · exact ⟨rfl, rfl⟩
  · exact ⟨rfl, rfl⟩
  · exact ⟨rfl, rfl⟩
  · exact absurd ⟨ho, hf, hm⟩ hcases

/-- What one turn of the loop does at the header `h`: it goes on exactly when the
header is accepted, and then memory is as the header describes. -/
structure TurnAt (image : U32) (size : ℕ) (h : ProgramHeader) (s : Loader) (r : Bool × Loader) :
    Prop where
  goesOn : r.1 = true ↔ h.Accepted size
  bytes : ∀ x, r.2.mem.byte x =
    if h.Accepted size ∧ h.Covers x then h.content s.mem image x else s.mem.byte x
  reads : ReadsInside size s r.2

/-- A loader cannot tell headers that read alike apart. -/
theorem TurnAt.congr {image : U32} {size : ℕ} {h h' : ProgramHeader} {s : Loader}
    {r : Bool × Loader} (halike : h.ReadsAlike size h') (hturn : TurnAt image size h' s r) :
    TurnAt image size h s r := by
  refine ⟨hturn.goesOn.trans halike.accepted, fun x => (hturn.bytes x).trans ?_, hturn.reads⟩
  by_cases hload : h.type = ptLoad
  · by_cases hfits : h.Fits size
    · rw [halike.eq hload hfits]
    · rw [if_neg fun hc => hfits (halike.accepted.mp hc.1 hload),
        if_neg fun hc => hfits (hc.1 hload)]
  · rw [if_neg fun hc => hload (halike.type.symm.trans hc.2.1), if_neg fun hc => hload hc.2.1]

/-- A turn at a header of which the bytes that are read lie inside the image, and whose destination
does not overlap the image. -/
theorem turnAt_programHeader {image imageSize : U32} {ph : ℕ} {s : Loader} {h : ProgramHeader}
    (hheader : h = programHeader s.mem image ph)
    (hph : ph + h.readSize imageSize.toNat ≤ imageSize.toNat)
    (hapart : h.Fits imageSize.toNat → ∀ x, h.Covers x → ¬ Within image imageSize.toNat x) :
    TurnAt image imageSize.toNat h s (loadSegment image imageSize ph s) := by
  have hlog {t : Loader} (off : ℕ) (hoff : off + 4 ≤ imageSize.toNat)
      (ht : ReadsInside imageSize.toNat s t) : ReadsInside imageSize.toNat s (t.log off 4) :=
    ht.trans (readsInside_log t hoff)
  have hfour := (h.readSize_bounds imageSize.toNat).1
  have h1 := hlog ph (by omega) (.refl _ s)
  rw [loadSegment_eq, ← hheader]
  dsimp only
  by_cases htype : h.type = ptLoad
  · rw [if_neg (not_not.mpr htype)]
    by_cases hfits : h.Fits imageSize.toNat
    · rw [ProgramHeader.readSize_of_fits htype hfits] at hph
      have h2 := hlog (ph + 4) (by omega) h1
      have h3 := hlog (ph + 16) (by omega) h2
      have h4 := hlog (ph + 20) (by omega) h3
      have h5 := hlog (ph + 8) (by omega) h4
      have haccepted : h.Accepted imageSize.toNat := fun _ => hfits
      obtain ⟨ho, hf, hm⟩ := fits_iff.mp hfits
      rw [if_neg ho, if_neg hf, if_neg hm]
      obtain ⟨hbytes, hreads⟩ := copy_zero_spec imageSize.isLt hph (s := ((((s.log ph 4).log
        (ph + 4) 4).log (ph + 16) 4).log (ph + 20) 4).log (ph + 8) 4) hheader hfits
        (fun x hx => hapart hfits x ⟨htype, hx⟩) _ rfl _ rfl
      refine ⟨by simp [haccepted], fun x => (hbytes x).trans ?_, h5.trans hreads⟩
      have hcovers : Within h.vaddr h.memsz.toNat x ↔ h.Accepted imageSize.toNat ∧ h.Covers x :=
        ⟨fun hx => ⟨haccepted, htype, hx⟩, fun hx => hx.2.2⟩
      simp only [hcovers]
      rfl
    · have hrejected : ¬ h.Accepted imageSize.toNat := fun ha => hfits (ha htype)
      have hstop {s' : Loader} (hreads : ReadsInside imageSize.toNat s s')
          (hmem : s'.mem = s.mem) : TurnAt image imageSize.toNat h s (false, s') :=
        ⟨by simp [hrejected], fun x => by rw [if_neg (fun hc => hrejected hc.1), hmem], hreads⟩
      have hcases := mt fits_iff.mpr hfits
      rw [readSize_eq, if_neg (not_not.mpr htype)] at hph
      split_ifs at hph ⊢ with ho hf hm
      · exact hstop (hlog (ph + 4) (by omega) h1) rfl
      · exact hstop (hlog (ph + 16) (by omega) (hlog (ph + 4) (by omega) h1)) rfl
      · exact hstop (hlog (ph + 20) (by omega) (hlog (ph + 16) (by omega)
          (hlog (ph + 4) (by omega) h1))) rfl
      · exact absurd ⟨ho, hf, hm⟩ hcases
  · rw [if_pos htype]
    exact ⟨by simp [ProgramHeader.Accepted, htype],
      fun x => (if_neg fun hc => htype hc.2.1).symm, h1⟩

/-- A turn at an entry of the table, while the image is in place. -/
theorem turnAt_loadSegment {m : Memory} {image imageSize : U32} {ph : ℕ} {s : Loader}
    (himage : SameImage m s.mem image imageSize.toNat)
    (hph : ph + (programHeader m image ph).readSize imageSize.toNat ≤ imageSize.toNat)
    (hapart : (programHeader m image ph).Fits imageSize.toNat →
      ∀ x, (programHeader m image ph).Covers x → ¬ Within image imageSize.toNat x) :
    TurnAt image imageSize.toNat (programHeader m image ph) s
      (loadSegment image imageSize ph s) := by
  have halike := himage.readsAlike hph
  refine .congr halike (turnAt_programHeader rfl (himage.readInside_iff.mpr hph) ?_)
  intro hfits x hcovers
  have hload : (programHeader m image ph).type = ptLoad := halike.type.symm.trans hcovers.1
  have hfits' := halike.accepted.mp (fun _ => hfits) hload
  rw [halike.eq hload hfits'] at hcovers
  exact hapart hfits' x hcovers

end AlderKernel.Elf
