import AlderKernel.Fs.Format

/-!
# The layout of a formatted volume

Where `fat16_format` writes, whatever fails, and how the areas that the mounted volume then has lie
in the partition.
-/

namespace AlderKernel.Fs

open Machine

/-- The device with a record of the sectors that writes were attempted to. -/
def recording {σ : Type} (a : Ata σ) : Ata (σ × List U32) where
  readSector lba d := ((a.readSector lba d.1).1, (a.readSector lba d.1).2, d.2)
  writeSector lba sector d :=
    ((a.writeSector lba sector d.1).1, (a.writeSector lba sector d.1).2, d.2 ++ [lba])

/-- A sector of the partition. -/
def InPartition (p count lba : U32) : Prop :=
  p.toNat ≤ lba.toNat ∧ lba.toNat < p.toNat + count.toNat

/-- All writes between two states of a recording device meet a condition. -/
def WritesOnly {σ : Type} (P : U32 → Prop) (d d' : σ × List U32) : Prop :=
  ∀ lba ∈ d'.2, lba ∈ d.2 ∨ P lba

/-- A device whose transfers may fail, with what its sectors hold: a read or write that succeeds
transfers the sector. What a failed one does is left open. -/
structure Honest {σ : Type} (a : Ata σ) (content : σ → Disk) : Prop where
  read : ∀ lba d, (a.readSector lba d).1.1 = true → (a.readSector lba d).1.2 = content d lba
  write : ∀ lba sector d, (a.writeSector lba sector d).1 = true →
    content (a.writeSector lba sector d).2 = Function.update (content d) lba sector

/-- An area of a volume. -/
inductive Area where
  | boot
  | fat (copy : ℕ)
  | root
  | cluster (c : ℕ)

/-- The address of the first sector of an area. -/
def Area.start (v : Volume) : Area → U32
  | .boot => v.partitionLba
  | .fat copy => v.fatStart + BitVec.ofNat 32 copy * v.fatSizeSectors
  | .root => v.rootStart
  | .cluster c => clusterToLba v (BitVec.ofNat 32 c)

/-- The number of sectors of an area. -/
def Area.length (v : Volume) : Area → ℕ
  | .boot => 1
  | .fat _ => v.fatSizeSectors.toNat
  | .root => v.rootDirSectors.toNat
  | .cluster _ => v.sectorsPerCluster.toNat

/-- The sectors of an area. -/
def Area.sectors (v : Volume) (A : Area) : Set ℕ :=
  Set.Ico (A.start v).toNat ((A.start v).toNat + A.length v)

/-- The areas of a volume of `n` clusters. -/
def Area.Used (v : Volume) (n : ℕ) : Area → Prop
  | .boot => True
  | .fat copy => copy < v.numFats.toNat
  | .root => True
  | .cluster c => 2 ≤ c ∧ c ≤ n + 1

/-- The areas of a volume of `n` clusters lie apart in the partition, and each cluster has its
entry in each FAT copy. -/
structure Tiles (v : Volume) (p count : U32) (n : ℕ) : Prop where
  inside : ∀ A : Area, A.Used v n → A.sectors v ⊆ Set.Ico p.toNat (p.toNat + count.toNat)
  disjoint : ∀ A B : Area, A.Used v n → B.Used v n → A ≠ B →
    Disjoint (A.sectors v) (B.sectors v)
  entry : ∀ copy < v.numFats.toNat, ∀ c, 2 ≤ c → c ≤ n + 1 →
    (v.fatStart + BitVec.ofNat 32 copy * v.fatSizeSectors +
        sectorIndex v (BitVec.ofNat 32 c)).toNat ∈ (Area.fat copy).sectors v ∧
      (offsetInSector v (BitVec.ofNat 32 c)).toNat + 1 < 512
  clusters_lt : n + 1 < 0xFFF7

section

variable {σ : Type} {a : Ata σ} {content : σ → Disk} {P Q : U32 → Prop} {d d' d'' : σ × List U32}
  {p count : U32}

/-! ### The writes of `fat16_format` -/

/-- No writes are writes of any kind. -/
theorem WritesOnly.refl (P : U32 → Prop) (d : σ × List U32) : WritesOnly P d d :=
  fun _ hlba => .inl hlba

/-- Writes one after the other. -/
theorem WritesOnly.trans (h : WritesOnly P d d') (h' : WritesOnly P d' d'') :
    WritesOnly P d d'' := by
  intro lba hlba
  rcases h' lba hlba with hlba | hP
  · exact h lba hlba
  · exact .inr hP

/-- One write. -/
theorem writesOnly_write {lba : U32} (hP : P lba) (sector : Sector) (d : σ × List U32) :
    WritesOnly P d ((recording a).writeSector lba sector d).2 := by
  intro x hx
  rcases List.mem_append.mp hx with hx | hx
  · exact .inl hx
  · obtain rfl := List.mem_singleton.mp hx
    exact .inr hP

/-- A loop of writes. -/
theorem writesOnly_writeSectors (base : U32) (sector : Sector) (turns i : ℕ)
    (hP : ∀ k, i ≤ k → k < i + turns → P (base + BitVec.ofNat 32 k)) (d : σ × List U32) :
    WritesOnly P d (writeSectors (recording a) base sector turns (BitVec.ofNat 32 i) d).2 := by
  induction turns generalizing i d with
  | zero => exact .refl P d
  | succ turns ih =>
    have hfirst := writesOnly_write (a := a) (hP i le_rfl (by omega)) sector d
    have hnext : BitVec.ofNat 32 i + 1#32 = BitVec.ofNat 32 (i + 1) := by rw [BitVec.ofNat_add]
    unfold writeSectors
    dsimp only
    split_ifs with hok
    · rw [hnext]
      exact hfirst.trans (ih (i + 1) (fun k hk hk' => hP k (by omega) (by omega)) _)
    · exact hfirst

/-- The loop over the FAT copies. -/
theorem writesOnly_formatFats (turns copy : ℕ) (hcopies : copy + turns = 2)
    (hP : ∀ k < 512, P ((formattedVolume p).lba k)) (d : σ × List U32) :
    WritesOnly P d (formatFats (recording a) (formattedVolume p).fatStart turns
      (BitVec.ofNat 32 copy) d).2 := by
  induction turns generalizing copy d with
  | zero => exact .refl P d
  | succ turns ih =>
    have hnext : BitVec.ofNat 32 copy + 1#32 = BitVec.ofNat 32 (copy + 1) := by
      rw [BitVec.ofNat_add]
    have hrest : fatSizeSectors.toNat - 1 = 255 := by decide
    unfold formatFats
    dsimp only
    rw [formatted_fatBase, hrest, hnext]
    have hfirst := writesOnly_write (a := a) (hP (copy * 256) (by omega)) firstFatSector d
    have hin (k : ℕ) (hk : k < 256) :
        P ((formattedVolume p).lba (copy * 256) + BitVec.ofNat 32 k) := by
      rw [Volume.lba_add]
      exact hP _ (by omega)
    have hsectors := hfirst.trans (writesOnly_writeSectors (a := a)
      ((formattedVolume p).lba (copy * 256)) .zero 255 1 (fun k _ hk => hin k hk) _)
    split_ifs with hok hok'
    · exact hsectors.trans (ih (copy + 1) (by omega) _)
    · exact hsectors
    · exact hfirst

/-- `fat16_format` writes to the sectors of the partition only, whatever fails. -/
theorem writesOnly_format (hfits : p.toNat + count.toNat ≤ 2 ^ 28) (d : σ × List U32) :
    WritesOnly (InPartition p count) d (fat16Format (recording a) p count d).2 := by
  rw [fat16Format_eq]
  split_ifs with hsize
  · obtain ⟨hlarge, hmin, -⟩ := hsize
    have hin (k : ℕ) (hk : k < 544) : InPartition p count ((formattedVolume p).lba k) := by
      change p.toNat ≤ (p + 1#32 + BitVec.ofNat 32 k).toNat ∧
        (p + 1#32 + BitVec.ofNat 32 k).toNat < p.toNat + count.toNat
      bv_omega
    have hroot : (formattedVolume p).rootStart = (formattedVolume p).lba 512 := by
      rw [(formattedVolume_mounted p).rootStart_lba, formatted_rootOffset]
    have hdir : rootDirSectors.toNat = 32 := by decide
    unfold formatSectors
    dsimp only
    rw [hroot, hdir]
    have hp : InPartition p count p := ⟨le_rfl, by omega⟩
    have hdirectory (k : ℕ) (hk : k < 32) :
        InPartition p count ((formattedVolume p).lba 512 + BitVec.ofNat 32 k) := by
      rw [Volume.lba_add]
      exact hin _ (by omega)
    have hboot := writesOnly_write (a := a) hp (bootSector p count) d
    have hfats := hboot.trans (writesOnly_formatFats (a := a) numFats.toNat 0 rfl
      (fun k hk => hin k (by omega)) _)
    split_ifs with hok hok'
    · exact hfats.trans (writesOnly_writeSectors (a := a) ((formattedVolume p).lba 512) .zero 32 0
        (fun k _ hk => hdirectory k (by omega)) _)
    · exact hfats
    · exact hboot
  · exact .refl _ d

/-! ### A format that succeeds -/

/-- A loop of writes that succeeds. -/
theorem Honest.writeSectors (h : Honest a content) {base i : U32} {sector : Sector} {turns : ℕ}
    {d d' : σ} (hr : writeSectors a base sector turns i d = (true, d')) :
    Fs.writeSectors disk base sector turns i (content d) = (true, content d') := by
  induction turns generalizing i d with
  | zero => exact Prod.ext rfl (congrArg content (Prod.mk.inj hr).2)
  | succ turns ih =>
    unfold Fs.writeSectors at hr
    dsimp only at hr
    split_ifs at hr with hok
    · have hrest := ih hr
      rw [h.write _ _ _ hok] at hrest
      exact hrest
    · simp at hr

/-- The loop over the FAT copies, when it succeeds. -/
theorem Honest.formatFats (h : Honest a content) {fatStart copy : U32} {turns : ℕ} {d d' : σ}
    (hr : formatFats a fatStart turns copy d = (true, d')) :
    Fs.formatFats disk fatStart turns copy (content d) = (true, content d') := by
  induction turns generalizing copy d with
  | zero => exact Prod.ext rfl (congrArg content (Prod.mk.inj hr).2)
  | succ turns ih =>
    unfold Fs.formatFats at hr ⊢
    dsimp only at hr ⊢
    split_ifs at hr with hok hok'
    · have hfirst := h.write _ _ _ hok
      have hrest := h.writeSectors (Prod.ext hok' rfl)
      rw [hfirst] at hrest
      have hwrite (lba : U32) (sector : Sector) (d : Disk) :
          disk.writeSector lba sector d = (true, Function.update d lba sector) := rfl
      rw [hwrite, if_neg (not_not_intro rfl), hrest, if_neg (not_not_intro rfl)]
      exact ih hr
    · simp at hr
    · simp at hr

/-- A format that succeeds leaves what it leaves on a disk without failures. -/
theorem Honest.format (h : Honest a content) {d d' : σ}
    (hr : fat16Format a p count d = (true, d')) :
    content d' = formattedDisk p count (content d) ∧ Admitted count := by
  refine fat16Format_disk (p := p) ?_
  rw [fat16Format_eq] at hr ⊢
  split_ifs at hr ⊢ with hsize
  · unfold formatSectors at hr ⊢
    dsimp only at hr ⊢
    split_ifs at hr with hok hok'
    · have hboot := h.write _ _ _ hok
      have hfats := h.formatFats (Prod.ext hok' rfl)
      rw [hboot] at hfats
      have hwrite (lba : U32) (sector : Sector) (d : Disk) :
          disk.writeSector lba sector d = (true, Function.update d lba sector) := rfl
      rw [hwrite, if_neg (not_not_intro rfl), hfats, if_neg (not_not_intro rfl)]
      exact h.writeSectors hr
    · simp at hr
    · simp at hr
  · simp at hr

/-- What is mounted after such a format. -/
theorem Honest.mount (h : Honest a content) {d : σ} {s s' : Fat16 σ}
    (hr : fat16Format a p count d = (true, s.dev)) (hm : fat16Mount a p s = (true, s')) :
    s'.vol = formattedVolume p := by
  obtain ⟨hformat, -⟩ := h.format hr
  have hread : (a.readSector p s.dev).1.1 = true := by
    by_contra hfailed
    unfold fat16Mount at hm
    dsimp only at hm
    rw [if_pos hfailed] at hm
    simp at hm
  obtain ⟨-, -, -, hvol⟩ := fat16Mount_success hm
  rw [hvol, h.read _ _ hread, hformat, formattedDisk_boot, bootSector_fields]

/-! ### The areas -/

/-- The place of an area in its partition. -/
def Area.offset : Area → ℕ
  | .boot => 0
  | .fat copy => 1 + copy * 256
  | .root => 513
  | .cluster c => 545 + (c - 2) * 64

/-- The areas of a formatted volume lie at these places. -/
theorem formatted_sectors {A : Area} {n : ℕ} (hA : A.Used (formattedVolume p) n)
    (hn : p.toNat + 545 + n * 64 ≤ 2 ^ 28) : A.sectors (formattedVolume p) =
      Set.Ico (p.toNat + A.offset) (p.toNat + A.offset + A.length (formattedVolume p)) := by
  have hlba (k : ℕ) (hk : k ≤ 544 + n * 64) :
      ((formattedVolume p).lba k).toNat = p.toNat + 1 + k := by
    change (p + 1#32 + BitVec.ofNat 32 k).toNat = p.toNat + 1 + k
    bv_omega
  have hmounted := formattedVolume_mounted p
  have hstart : (A.start (formattedVolume p)).toNat = p.toNat + A.offset := by
    cases A with
    | boot => rfl
    | fat copy =>
      have hcopy : copy < 2 := hA
      have hfat : (Area.fat copy).start (formattedVolume p) =
          (formattedVolume p).lba (copy * 256) := by
        unfold Volume.lba
        rw [BitVec.ofNat_mul]
        rfl
      rw [hfat, hlba _ (by omega)]
      exact Nat.add_assoc ..
    | root =>
      have hroot : Area.root.start (formattedVolume p) = (formattedVolume p).lba 512 := by
        rw [← formatted_rootOffset p, ← hmounted.rootStart_lba]
        rfl
      rw [hroot, hlba _ (by omega)]
      exact Nat.add_assoc ..
    | cluster c =>
      obtain ⟨hlo, hhi⟩ := hA
      have hcluster : (Area.cluster c).start (formattedVolume p) =
          (formattedVolume p).lba (544 + (c - 2) * 64) := by
        have hsum := hmounted.clusterToLba_eq hlo 0
        rw [BitVec.add_zero, formatted_clusterOffset] at hsum
        exact hsum
      rw [hcluster, hlba _ (by omega)]
      unfold Area.offset
      dsimp only
      omega
  unfold Area.sectors
  rw [hstart]

/-- Different areas have their places one behind the other. -/
theorem Area.offset_apart {A B : Area} {n : ℕ} (hA : A.Used (formattedVolume p) n)
    (hB : B.Used (formattedVolume p) n) (hne : A ≠ B) :
    A.offset + A.length (formattedVolume p) ≤ B.offset ∨
      B.offset + B.length (formattedVolume p) ≤ A.offset := by
  have hfat := formatted_fatSizeSectors p
  have hroot := formatted_rootDirSectors p
  have hcluster := formatted_sectorsPerCluster p
  have hcopies := formatted_numFats p
  cases A <;> cases B <;>
    simp only [Area.Used, Area.offset, Area.length, hfat, hroot, hcluster, hcopies, ne_eq,
      Area.fat.injEq, Area.cluster.injEq, not_true_eq_false] at hA hB hne ⊢ <;> omega

/-- Each area ends in the partition. -/
theorem Area.offset_le {A : Area} {n : ℕ} (hA : A.Used (formattedVolume p) n) :
    A.offset + A.length (formattedVolume p) ≤ 545 + n * 64 := by
  have hfat := formatted_fatSizeSectors p
  have hroot := formatted_rootDirSectors p
  have hcluster := formatted_sectorsPerCluster p
  have hcopies := formatted_numFats p
  cases A <;>
    simp only [Area.Used, Area.offset, Area.length, hfat, hroot, hcluster, hcopies] at hA ⊢ <;>
    omega

/-- The areas of a formatted volume tile its partition. -/
theorem formatted_tiles (hfits : p.toNat + count.toNat ≤ 2 ^ 28) (hsize : Admitted count) :
    Tiles (formattedVolume p) p count ((count.toNat - 545) / 64) := by
  obtain ⟨hlarge, -, hmax⟩ := hsize
  generalize hn : (count.toNat - 545) / 64 = n at *
  have hroom : 545 + n * 64 ≤ count.toNat := by omega
  have hmounted := formattedVolume_mounted p
  refine ⟨fun A hA => ?_, fun A B hA hB hne => ?_, fun copy hcopy c hlo hhi => ?_, by omega⟩
  · have hle := A.offset_le hA
    rw [formatted_sectors hA (by omega)]
    exact Set.Ico_subset_Ico (by omega) (by omega)
  · rw [formatted_sectors hA (by omega), formatted_sectors hB (by omega),
      Set.Ico_disjoint_Ico]
    have hapart := Area.offset_apart hA hB hne
    omega
  · have haddr := formatted_addressable p (show c < 65536 by omega)
    have hentry := hmounted.entryByte_lt haddr
    have hindex : (sectorIndex (formattedVolume p) (BitVec.ofNat 32 c)).toNat < 256 := by
      rw [hmounted.sectorIndex_eq haddr.lt, BitVec.toNat_ofNat]
      exact (Nat.mod_le _ _).trans_lt haddr.entrySector_lt
    have hfat : (Area.fat copy).Used (formattedVolume p) n := hcopy
    have hcopy' : copy < 2 := hcopy
    constructor
    · rw [formatted_sectors hfat (by omega)]
      have hstart : ((formattedVolume p).fatStart +
          BitVec.ofNat 32 copy * (formattedVolume p).fatSizeSectors).toNat =
            p.toNat + (1 + copy * 256) := by
        change (p + 1#32 + BitVec.ofNat 32 copy * 256#32).toNat = _
        bv_omega
      have hlength : (Area.fat copy).length (formattedVolume p) = 256 := rfl
      have hoffset : (Area.fat copy).offset = 1 + copy * 256 := rfl
      rw [hlength, hoffset, Set.mem_Ico, BitVec.toNat_add, hstart]
      omega
    · rw [hmounted.offsetInSector_eq haddr.lt]
      exact hentry

end

/-- `fat16_format` stays in its partition and its layout tiles it. For every partition that ends at
`2 ^ 28` or before and every device, whatever fails, only sectors of the partition are written.
When the format succeeds and the volume is mounted, its areas lie apart in the partition, and
each of its clusters has an entry in each FAT copy. -/
theorem format_tiles {σ : Type} (a : Ata σ) {p count : U32}
    (hfits : p.toNat + count.toNat ≤ 2 ^ 28) (d : σ) :
    (∀ lba ∈ (fat16Format (recording a) p count (d, [])).2.2, InPartition p count lba) ∧
      ∀ content, Honest a content → ∀ s s', fat16Format a p count d = (true, s.dev) →
        fat16Mount a p s = (true, s') → Tiles s'.vol p count ((count.toNat - 545) / 64) := by
  refine ⟨fun lba hlba => ?_, fun content ha s s' hr hm => ?_⟩
  · exact (writesOnly_format hfits (d, []) lba hlba).resolve_left List.not_mem_nil
  · rw [ha.mount hr hm]
    exact formatted_tiles hfits (ha.format hr).2

/-- A volume on an empty disk. -/
theorem emptyDisk_tiles : ∃ s', fat16Mount disk 2048#32
      ⟨formattedVolume 0#32, false, formattedDisk 2048#32 297952#32 fun _ => .zero, false⟩ =
        (true, s') ∧
      Tiles s'.vol 2048#32 297952#32 4646 := by
  have hhonest : Honest disk id := ⟨fun _ _ _ => rfl, fun _ _ _ _ => rfl⟩
  have hboot : formattedDisk 2048#32 297952#32 (fun _ => .zero) 2048#32 =
      bootSector 2048#32 297952#32 := formattedDisk_boot
  have hfits : (2048#32).toNat + (297952#32).toNat ≤ 2 ^ 28 := by decide
  have hformat : fat16Format disk 2048#32 297952#32 (fun _ => .zero) = (true, _) :=
    fat16Format_of_admitted _ _ (by simp [Admitted]) _
  generalize formattedDisk 2048#32 297952#32 (fun _ => .zero) = d at hboot hformat ⊢
  have hmount : fat16Mount disk 2048#32 ⟨formattedVolume 0#32, false, d, false⟩ = (true, _) :=
    fat16Mount_formatted hboot
  exact ⟨_, hmount, (format_tiles disk hfits _).2 id hhonest _ _ hformat hmount⟩

end AlderKernel.Fs
