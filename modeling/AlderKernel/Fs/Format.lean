import AlderKernel.Fs.Calls

/-!
# A freshly formatted volume

What `fat16_format` and then `fat16_mount` leave on a disk without failures: a volume of fixed
proportions with an empty FAT in two copies and an empty root directory.
-/

namespace AlderKernel.Fs

open Machine SlotTable

/-- The volume that `fat16_mount` finds where `fat16_format` has been. -/
def formattedVolume (partitionLba : U32) : Volume where
  partitionLba := partitionLba
  bytesPerSector := 512#32
  sectorsPerCluster := sectorsPerCluster
  reservedSectors := reservedSectors
  numFats := numFats
  rootEntries := rootEntries
  fatSizeSectors := fatSizeSectors
  rootDirSectors := rootDirSectors
  fatStart := partitionLba + reservedSectors
  rootStart := partitionLba + reservedSectors + numFats * fatSizeSectors
  dataStart := partitionLba + reservedSectors + numFats * fatSizeSectors + rootDirSectors

/-- The sizes that `fat16_format` accepts. -/
def Admitted (count : U32) : Prop :=
  545 < count.toNat ∧ 4085 ≤ (count.toNat - 545) / 64 ∧ (count.toNat - 545) / 64 ≤ 65524

instance (count : U32) : Decidable (Admitted count) := inferInstanceAs (Decidable (_ ∧ _))

section

variable (p count : U32)

/-- A formatted volume has sectors of 512 bytes. -/
theorem formatted_bytesPerSector : (formattedVolume p).bytesPerSector.toNat = 512 := rfl

/-- A formatted volume has clusters of 64 sectors. -/
theorem formatted_sectorsPerCluster : (formattedVolume p).sectorsPerCluster.toNat = 64 := rfl

/-- A formatted volume has two copies of the FAT. -/
theorem formatted_numFats : (formattedVolume p).numFats.toNat = 2 := rfl

/-- A copy of the FAT of a formatted volume has 256 sectors. -/
theorem formatted_fatSizeSectors : (formattedVolume p).fatSizeSectors.toNat = 256 := rfl

/-- The root directory of a formatted volume has 32 sectors. -/
theorem formatted_rootDirSectors : (formattedVolume p).rootDirSectors.toNat = 32 := rfl

/-- The FAT of a formatted volume has 65536 entries. -/
theorem formatted_clusters : (formattedVolume p).clusters = 65536 := by
  unfold Volume.clusters
  rw [formatted_fatSizeSectors, formatted_bytesPerSector]

/-- The root directory of a formatted volume starts at sector 512 behind the FAT's start. -/
theorem formatted_rootOffset : (formattedVolume p).rootOffset = 512 := by
  unfold Volume.rootOffset
  rw [formatted_fatSizeSectors, formatted_numFats]

/-- Where the sectors of a cluster of a formatted volume are. -/
theorem formatted_clusterOffset (c s : ℕ) :
    (formattedVolume p).clusterOffset c s = 544 + (c - 2) * 64 + s := by
  unfold Volume.clusterOffset Volume.dataOffset
  rw [formatted_rootOffset, formatted_rootDirSectors, formatted_sectorsPerCluster]

/-- A formatted volume is one that can be mounted. -/
theorem formattedVolume_mounted : MountedVolume (formattedVolume p) := by
  constructor
  · rw [formatted_bytesPerSector]; decide
  · rw [formatted_bytesPerSector]; decide
  · rw [formatted_sectorsPerCluster]; decide
  · rw [formatted_sectorsPerCluster]; decide
  · rw [formatted_numFats]; decide
  · rw [formatted_fatSizeSectors]; decide
  · rw [formatted_rootDirSectors, formatted_bytesPerSector]; decide
  · rfl
  · rfl

/-- All clusters below 65536 of a formatted volume are addressable. -/
theorem formatted_addressable {c : ℕ} (hc : c < 65536) : (formattedVolume p).Addressable c := by
  constructor
  · rwa [formatted_clusters]
  · rw [formatted_bytesPerSector]
    exact Or.inl (le_refl _)

/-- A cluster of a formatted volume has 32768 bytes. -/
theorem formatted_bytesPerCluster : bytesPerCluster (formattedVolume p) = 32768#32 := by
  change sectorsPerCluster * 512#32 = 32768#32
  decide

/-- The signature at the end of the boot sector. -/
theorem bootSector_signature : (bootSector p count).byte 510 = 0x55#8 ∧
    (bootSector p count).byte 511 = 0xAA#8 := by
  have hlast : ∀ (l : List U8) (i : ℕ), l.length = 62 →
      (l ++ List.replicate 448 0#8 ++ [0x55#8, 0xAA#8]).getD (510 + i) 0#8 =
        [0x55#8, 0xAA#8].getD i 0#8 := by
    intro l i hl
    have hlen : (l ++ List.replicate 448 0#8).length = 510 := by
      rw [List.length_append, List.length_replicate, hl]
    rw [List.getD_append_right _ _ _ _ (by omega), hlen, Nat.add_sub_cancel_left]
  unfold bootSector
  constructor
  · rw [Buffer.byte_ofList (by decide)]
    exact hlast _ 0 rfl
  · rw [Buffer.byte_ofList (by decide)]
    exact hlast _ 1 rfl

/-- Mounting reads the fields that formatting has written. -/
theorem bootSector_fields (v : Volume) :
    volumeLayout (volumeFields v p (bootSector p count)) = formattedVolume p := by
  have hword : ∀ (i : ℕ) (lo hi : U8) (w : U32), (bootSector p count).byte i = lo →
      (bootSector p count).byte (i + 1) = hi → lo.setWidth 32 ||| hi.setWidth 32 <<< 8 = w →
      word16 (bootSector p count) i = w := by
    intro i lo hi w hlo hhi hw
    unfold word16
    rw [hlo, hhi, hw]
  have h13 : (bootSector p count).byte 13 = 64#8 := rfl
  have h16 : (bootSector p count).byte 16 = 2#8 := rfl
  have hroot : (rootEntries * 32#32 + 512#32 - 1#32) / 512#32 = rootDirSectors := by decide
  unfold volumeFields volumeLayout
  dsimp only
  rw [hword 11 0#8 2#8 512#32 rfl rfl (by decide),
    hword 14 1#8 0#8 reservedSectors rfl rfl (by decide),
    hword 17 0#8 2#8 rootEntries rfl rfl (by decide),
    hword 22 0#8 1#8 fatSizeSectors rfl rfl (by decide), h13, h16, hroot]
  rfl

/-! ### The disk after formatting -/

/-- The sectors of an empty FAT copy. -/
def emptyFatSector (i : ℕ) : Sector := if i = 0 then firstFatSector else .zero

/-- The disk after `fat16_format`. -/
def formattedDisk (d : Disk) : Disk :=
  let v := formattedVolume p
  storeSectors (v.lba 512) (fun _ => .zero) 32 0
    (storeSectors (v.lba 256) emptyFatSector 256 0
      (storeSectors (v.lba 0) emptyFatSector 256 0 (Function.update d p (bootSector p count))))

/-- Where a FAT copy starts. -/
theorem formatted_fatBase (p : U32) (copy : ℕ) :
    (formattedVolume p).fatStart + BitVec.ofNat 32 copy * fatSizeSectors =
      (formattedVolume p).lba (copy * 256) := by
  unfold Volume.lba
  rw [BitVec.ofNat_mul]
  rfl

/-- One turn of the loop over the FAT copies. -/
theorem formatFats_succ (turns copy : ℕ) (d : Disk) :
    formatFats disk (formattedVolume p).fatStart (turns + 1) (BitVec.ofNat 32 copy) d =
      formatFats disk (formattedVolume p).fatStart turns (BitVec.ofNat 32 (copy + 1))
        (storeSectors ((formattedVolume p).lba (copy * 256)) emptyFatSector 256 0 d) := by
  have hrest : writeSectors disk ((formattedVolume p).lba (copy * 256)) .zero 255 1#32
      (Function.update d ((formattedVolume p).lba (copy * 256)) firstFatSector) =
      (true, storeSectors ((formattedVolume p).lba (copy * 256)) emptyFatSector 256 0 d) :=
    writeSectors_behind
  have hfirst : disk.writeSector ((formattedVolume p).lba (copy * 256)) firstFatSector d =
      (true, Function.update d ((formattedVolume p).lba (copy * 256)) firstFatSector) := rfl
  have hn : fatSizeSectors.toNat - 1 = 255 := by decide
  rw [formatFats, formatted_fatBase, hn, hfirst]
  dsimp only
  rw [hrest, if_neg (not_not_intro rfl), if_neg (not_not_intro rfl), BitVec.ofNat_add]

/-- What `fat16_format` writes, once the size is accepted. -/
def formatSectors {σ : Type} (a : Ata σ) (p count : U32) (d : σ) : Bool × σ :=
  let boot := a.writeSector p (bootSector p count) d
  if ¬ boot.1 then (false, boot.2) else
  let fats := formatFats a (formattedVolume p).fatStart numFats.toNat 0#32 boot.2
  if ¬ fats.1 then (false, fats.2) else
  writeSectors a (formattedVolume p).rootStart .zero rootDirSectors.toNat 0#32 fats.2

/-- `fat16_format` accepts the sizes for which the number of clusters is in bounds. -/
theorem fat16Format_eq {σ : Type} (a : Ata σ) (p count : U32) (d : σ) :
    fat16Format a p count d =
      if Admitted count then formatSectors a p count d else (false, d) := by
  have hnon : reservedSectors + numFats * fatSizeSectors + rootDirSectors = 545#32 := by decide
  have h4085 : (4085#32).toNat = 4085 := rfl
  have h65524 : (65524#32).toNat = 65524 := rfl
  have h545 : (545#32).toNat = 545 := rfl
  have hsize : Admitted count ↔ 545 < count.toNat ∧ 4085 ≤ (count.toNat - 545) / 64 ∧
      (count.toNat - 545) / 64 ≤ 65524 := Iff.rfl
  unfold fat16Format
  dsimp only
  rw [hnon]
  by_cases hsmall : count ≤ 545#32
  · rw [if_pos hsmall]
    rw [BitVec.le_def, h545] at hsmall
    rw [if_neg (by rw [hsize]; omega)]
  rw [if_neg hsmall]
  rw [BitVec.le_def, h545] at hsmall
  have hclusters : (clusterCount count).toNat = (count.toNat - 545) / 64 := by
    unfold clusterCount
    rw [hnon, BitVec.toNat_udiv, BitVec.toNat_sub_of_le (by bv_omega)]
    rfl
  by_cases hrange : clusterCount count < 4085#32 ∨ 65524#32 < clusterCount count
  · rw [if_pos hrange]
    rw [BitVec.lt_def, BitVec.lt_def, hclusters, h4085, h65524] at hrange
    rw [if_neg (by rw [hsize]; omega)]
  · rw [if_neg hrange]
    rw [BitVec.lt_def, BitVec.lt_def, hclusters, h4085, h65524] at hrange
    rw [if_pos (hsize.mpr (by omega))]
    rfl

/-- The writes of `fat16_format` on a disk without failures. -/
theorem formatSectors_disk (d : Disk) :
    formatSectors disk p count d = (true, formattedDisk p count d) := by
  have hfats : ∀ d, formatFats disk (formattedVolume p).fatStart numFats.toNat 0#32 d =
      (true, storeSectors ((formattedVolume p).lba 256) emptyFatSector 256 0
        (storeSectors ((formattedVolume p).lba 0) emptyFatSector 256 0 d)) := by
    intro d
    have htwo := formatFats_succ p 1 0 d
    rw [formatFats_succ p 0 1] at htwo
    exact htwo
  have hroot : ∀ d, writeSectors disk ((formattedVolume p).lba 512) .zero 32 0#32 d =
      (true, storeSectors ((formattedVolume p).lba 512) (fun _ => .zero) 32 0 d) :=
    writeSectors_disk _ .zero 32 0
  have hboot : disk.writeSector p (bootSector p count) d =
      (true, Function.update d p (bootSector p count)) := by rw [disk]
  have hstart : (formattedVolume p).rootStart = (formattedVolume p).lba 512 := by
    rw [(formattedVolume_mounted p).rootStart_lba, formatted_rootOffset]
  have hdir : rootDirSectors.toNat = 32 := by decide
  unfold formatSectors
  rw [hboot]
  dsimp only
  rw [hfats, if_neg (not_not_intro rfl), if_neg (not_not_intro rfl), hstart, hdir, hroot,
    formattedDisk]

/-- `fat16_format` of an accepted size on a disk without failures. -/
theorem fat16Format_of_admitted (hsize : Admitted count) (d : Disk) :
    fat16Format disk p count d = (true, formattedDisk p count d) := by
  rw [fat16Format_eq, if_pos hsize, formatSectors_disk]

/-- A successful format has the number of clusters in bounds, and leaves that disk. -/
theorem fat16Format_disk {p count : U32} {d d' : Disk}
    (hr : fat16Format disk p count d = (true, d')) :
    d' = formattedDisk p count d ∧ Admitted count := by
  by_cases hsize : Admitted count
  · rw [fat16Format_of_admitted p count hsize] at hr
    exact ⟨(Prod.mk.inj hr).2.symm, hsize⟩
  · rw [fat16Format_eq, if_neg hsize] at hr
    exact absurd (Prod.mk.inj hr).1 (by decide)

variable {p count}

/-- A sector of a FAT copy of a formatted disk. -/
theorem formattedDisk_fat {d : Disk} {copy i : ℕ} (hcopy : copy < 2) (hi : i < 256) :
    formattedDisk p count d ((formattedVolume p).lba (copy * 256 + i)) = emptyFatSector i := by
  unfold formattedDisk
  rw [storeSectors_lba (by omega) (by omega), if_neg (by omega),
    storeSectors_lba (by omega) (by omega)]
  split_ifs with hsecond
  · rw [show copy * 256 + i - 256 = i by omega]
  · rw [storeSectors_lba (by omega) (by omega), if_pos (by omega),
      show copy * 256 + i - 0 = i by omega]

/-- A sector of the root directory of a formatted disk. -/
theorem formattedDisk_root {d : Disk} {k : ℕ} (hk : 512 ≤ k) (hk' : k < 544) :
    formattedDisk p count d ((formattedVolume p).lba k) = .zero := by
  unfold formattedDisk
  rw [storeSectors_lba (by omega) (by omega), if_pos (by omega)]

/-- Formatting writes to nothing but the boot sector, the FAT copies and the root directory. -/
theorem formattedDisk_of_ne {d : Disk} {k : ℕ} (hk : 544 ≤ k) (hk' : k < 2 ^ 32 - 1) :
    formattedDisk p count d ((formattedVolume p).lba k) = d ((formattedVolume p).lba k) := by
  have hboot : (formattedVolume p).lba k ≠ p := by
    change p + 1#32 + BitVec.ofNat 32 k ≠ p
    bv_omega
  unfold formattedDisk
  rw [storeSectors_lba (by omega) (by omega), if_neg (by omega),
    storeSectors_lba (by omega) (by omega), if_neg (by omega),
    storeSectors_lba (by omega) (by omega), if_neg (by omega), Function.update_of_ne hboot]

/-- The boot sector of a formatted disk. -/
theorem formattedDisk_boot {d : Disk} : formattedDisk p count d p = bootSector p count := by
  have hboot : p = (formattedVolume p).lba (2 ^ 32 - 1) := by
    change p = p + 1#32 + BitVec.ofNat 32 (2 ^ 32 - 1)
    bv_omega
  have h512 : formattedDisk p count d ((formattedVolume p).lba (2 ^ 32 - 1)) =
      Function.update d p (bootSector p count) ((formattedVolume p).lba (2 ^ 32 - 1)) := by
    unfold formattedDisk
    rw [storeSectors_lba (by omega) (by omega), if_neg (by omega),
      storeSectors_lba (by omega) (by omega), if_neg (by omega),
      storeSectors_lba (by omega) (by omega), if_neg (by omega)]
  rw [← hboot, Function.update_self] at h512
  exact h512

/-! ### The volume after formatting -/

/-- Mounting finds the volume where formatting has been. -/
theorem fat16Mount_formatted {s : Fat16 Disk} (h : s.dev p = bootSector p count) :
    fat16Mount disk p s = (true, { s with vol := formattedVolume p, mounted := true }) := by
  have hread : disk.readSector p s.dev = ((true, bootSector p count), s.dev) := by
    rw [← h]
    rfl
  obtain ⟨h510, h511⟩ := bootSector_signature p count
  have hbytes : (volumeFields s.vol p (bootSector p count)).bytesPerSector = 512#32 :=
    congrArg Volume.bytesPerSector (bootSector_fields p count s.vol)
  have hcluster : (volumeFields s.vol p (bootSector p count)).sectorsPerCluster = 64#32 :=
    congrArg Volume.sectorsPerCluster (bootSector_fields p count s.vol)
  unfold fat16Mount
  rw [hread]
  dsimp only
  rw [if_neg (not_not_intro rfl), if_neg (by simp [h510, h511]), hbytes, hcluster,
    if_neg (by decide), bootSector_fields]

/-- There is a disk on which the volume of any partition is mounted. -/
theorem exists_mount_formatted (p : U32) :
    ∃ s s', fat16Mount disk p s = (true, s') ∧ s'.vol = formattedVolume p :=
  ⟨⟨formattedVolume p, false, fun _ => bootSector p 0#32, false⟩, _, fat16Mount_formatted rfl, rfl⟩

/-- Formatting leaves all clusters free. -/
theorem formattedDisk_entry {d : Disk} {copy c : ℕ} (hcopy : copy < 2) (hc : 2 ≤ c)
    (hc' : c < 65536) : entryAt (formattedVolume p) (formattedDisk p count d) copy c = 0#16 := by
  have hsector : (formattedVolume p).entryOffset copy c = copy * 256 + 2 * c / 512 := by
    unfold Volume.entryOffset Volume.entrySector
    rw [formatted_fatSizeSectors, formatted_bytesPerSector]
  have hbyte : (formattedVolume p).entryByte c = 2 * c % 512 := by
    unfold Volume.entryByte
    rw [formatted_bytesPerSector]
  have hzero (i : ℕ) (hi : i < 512) (hin : 4 ≤ i ∨ 2 * c / 512 ≠ 0) :
      (emptyFatSector (2 * c / 512)).byte i = 0#8 := by
    unfold emptyFatSector firstFatSector
    split_ifs with hfirst
    · rw [Buffer.byte_ofList hi, List.getD_eq_default]
      exact hin.resolve_right (not_not_intro hfirst)
    · exact Buffer.byte_zero
  have hlo := hzero (2 * c % 512) (by omega) (by omega)
  have hhi := hzero (2 * c % 512 + 1) (by omega) (by omega)
  unfold entryAt word16
  rw [hsector, hbyte, formattedDisk_fat hcopy (by omega), hlo, hhi]
  rfl

/-- Formatting leaves the slots of the root directory empty. -/
theorem formattedDisk_slot {d : Disk} {i : ℕ} (hi : i < 512) :
    slotAt (formattedDisk p count d) (formattedVolume p).rootStart i = .zero := by
  have hstart : (formattedVolume p).rootStart + BitVec.ofNat 32 (i / 16) =
      (formattedVolume p).lba (512 + i / 16) := by
    rw [(formattedVolume_mounted p).rootStart_lba, formatted_rootOffset, Volume.lba_add]
  unfold slotAt
  rw [hstart, formattedDisk_root (by omega) (by omega)]
  refine Buffer.ext fun k hk => ?_
  rw [Buffer.byte_slice hk, Buffer.byte_zero, Buffer.byte_zero]

/-- Listing the root directory shows nothing after formatting. -/
theorem shownFrom_formatted {d : Disk} :
    shownFrom (formattedDisk p count d) (formattedVolume p).rootStart 0 (16 * 32) = [] := by
  have hended : slotEnded (slotAt (formattedDisk p count d) (formattedVolume p).rootStart 0) =
      true := by
    rw [formattedDisk_slot (by decide)]
    simp [slotEnded]
  unfold shownFrom
  rw [show 16 * 32 = 511 + 1 from rfl, liveFrom_succ, if_pos hended, List.filter_nil]

end

end AlderKernel.Fs
