import AlderKernel.Fs.Files

/-!
# A disk without failures

A map from addresses to sectors on which every transfer succeeds, and the places of a mounted
volume on it. Sectors of a volume are numbered from its first FAT sector on: the FAT
copies, the root directory and the clusters follow one another there, and the numbers stay
below `2 ^ 32`, so that different numbers are different sectors.
-/

namespace AlderKernel.Fs

open Machine

/-- The sectors of a disk by their addresses. -/
abbrev Disk := U32 → Sector

/-- The device whose transfers all succeed and touch exactly the named sector. -/
def disk : Ata Disk where
  readSector lba d := ((true, d lba), d)
  writeSector lba sector d := (true, Function.update d lba sector)

/-- The address of the `k`-th sector from the first FAT sector of the volume on. -/
def Volume.lba (v : Volume) (k : ℕ) : U32 := v.fatStart + BitVec.ofNat 32 k

/-- The number of the first sector behind the FAT copies, where the root directory starts. -/
def Volume.rootOffset (v : Volume) : ℕ := v.numFats.toNat * v.fatSizeSectors.toNat

/-- The number of the first data sector. -/
def Volume.dataOffset (v : Volume) : ℕ := v.rootOffset + v.rootDirSectors.toNat

/-- The number of sector `s` of a cluster. -/
def Volume.clusterOffset (v : Volume) (c s : ℕ) : ℕ :=
  v.dataOffset + (c - 2) * v.sectorsPerCluster.toNat + s

/-- The number of clusters up to `max_cluster`, with the two reserved entries. -/
def Volume.clusters (v : Volume) : ℕ := v.fatSizeSectors.toNat * v.bytesPerSector.toNat / 2

/-- A cluster up to `max_cluster` whose entries lie in the sector buffer. With sectors of more
than 512 bytes these are the first 256 clusters. -/
structure Volume.Addressable (v : Volume) (c : ℕ) : Prop where
  lt : c < v.clusters
  sector : v.bytesPerSector.toNat ≤ 512 ∨ c < 256

/-- What a successful `fat16_mount` establishes about the volume. -/
structure MountedVolume (v : Volume) : Prop where
  bytesPerSector_pos : 0 < v.bytesPerSector.toNat
  bytesPerSector_lt : v.bytesPerSector.toNat < 2 ^ 16
  sectorsPerCluster_pos : 0 < v.sectorsPerCluster.toNat
  sectorsPerCluster_lt : v.sectorsPerCluster.toNat < 2 ^ 8
  numFats_lt : v.numFats.toNat < 2 ^ 8
  fatSizeSectors_lt : v.fatSizeSectors.toNat < 2 ^ 16
  rootDirSectors_le : v.rootDirSectors.toNat ≤
    ((2 ^ 16 - 1) * 32 + v.bytesPerSector.toNat - 1) / v.bytesPerSector.toNat
  rootStart_eq : v.rootStart = v.fatStart + v.numFats * v.fatSizeSectors
  dataStart_eq : v.dataStart = v.rootStart + v.rootDirSectors

section

variable {v : Volume}

/-- Sector numbers below `2 ^ 32` are told apart by their addresses. -/
theorem Volume.lba_inj {k k' : ℕ} (hk : k < 2 ^ 32) (hk' : k' < 2 ^ 32) :
    v.lba k = v.lba k' ↔ k = k' := by
  unfold Volume.lba
  constructor
  · intro h
    bv_omega
  · rintro rfl
    rfl

/-- Two sectors further on. -/
theorem Volume.lba_add (v : Volume) (k i : ℕ) : v.lba k + BitVec.ofNat 32 i = v.lba (k + i) := by
  unfold Volume.lba
  rw [BitVec.add_assoc, BitVec.ofNat_add]

/-- The root directory follows the FAT copies. -/
theorem MountedVolume.rootStart_lba (h : MountedVolume v) : v.rootStart = v.lba v.rootOffset := by
  rw [h.rootStart_eq]
  unfold Volume.lba Volume.rootOffset
  rw [BitVec.ofNat_mul, BitVec.ofNat_toNat, BitVec.ofNat_toNat, BitVec.setWidth_eq,
    BitVec.setWidth_eq]

/-- The clusters follow the root directory. -/
theorem MountedVolume.clusterToLba_eq (h : MountedVolume v) {c : ℕ} (hc : 2 ≤ c) (s : ℕ) :
    clusterToLba v (BitVec.ofNat 32 c) + BitVec.ofNat 32 s = v.lba (v.clusterOffset c s) := by
  have hsub : BitVec.ofNat 32 c - 2#32 = BitVec.ofNat 32 (c - 2) := by
    bv_omega
  unfold clusterToLba Volume.clusterOffset Volume.dataOffset
  rw [h.dataStart_eq, h.rootStart_lba, hsub, ← v.lba_add, ← v.lba_add, ← v.lba_add,
    BitVec.ofNat_mul, BitVec.ofNat_toNat, BitVec.ofNat_toNat, BitVec.setWidth_eq,
    BitVec.setWidth_eq]

/-- `max_cluster`, computed without wrapping. -/
theorem MountedVolume.toNat_maxCluster (h : MountedVolume v) :
    (maxCluster v).toNat = v.clusters := by
  have hle : v.fatSizeSectors.toNat * v.bytesPerSector.toNat ≤ (2 ^ 16 - 1) * (2 ^ 16 - 1) :=
    Nat.mul_le_mul (by have := h.fatSizeSectors_lt; omega) (by have := h.bytesPerSector_lt; omega)
  unfold maxCluster Volume.clusters
  rw [BitVec.toNat_udiv, BitVec.toNat_mul, Nat.mod_eq_of_lt (by omega)]
  rfl

/-- The root directory has at most 2097120 sectors, and at most 4096 full ones. -/
theorem MountedVolume.rootDirSectors_bound (h : MountedVolume v) :
    v.rootDirSectors.toNat ≤ 2097120 ∧
      (v.bytesPerSector.toNat = 512 → v.rootDirSectors.toNat ≤ 4096) := by
  have hpos := h.bytesPerSector_pos
  have hle := h.rootDirSectors_le
  constructor
  · apply hle.trans
    apply Nat.div_le_of_le_mul
    generalize v.bytesPerSector.toNat = b at *
    omega
  · intro hb
    rw [hb] at hle
    omega

/-- An addressable cluster lies below `2 ^ 32` sectors from the first FAT sector of its volume. -/
theorem MountedVolume.clusterOffset_lt (h : MountedVolume v) {c s : ℕ} (hc : v.Addressable c)
    (hs : s < v.sectorsPerCluster.toNat) : v.clusterOffset c s < 2 ^ 32 := by
  have hfats : v.rootOffset ≤ 255 * 65535 :=
    Nat.mul_le_mul (by have := h.numFats_lt; omega) (by have := h.fatSizeSectors_lt; omega)
  have hspc := h.sectorsPerCluster_lt
  have hdir := h.rootDirSectors_bound
  have hfs := h.fatSizeSectors_lt
  have hbytes : 2 * v.clusters ≤ v.fatSizeSectors.toNat * v.bytesPerSector.toNat :=
    Nat.mul_div_le _ _
  have hlt := hc.lt
  have hdata : (c - 2) * v.sectorsPerCluster.toNat ≤ (c - 2) * 255 :=
    Nat.mul_le_mul_left _ (by omega)
  unfold Volume.clusterOffset Volume.dataOffset
  rcases hc.sector with hb | hsmall
  · rcases Nat.lt_or_ge v.bytesPerSector.toNat 512 with hb' | hb'
    · have hmul : v.fatSizeSectors.toNat * v.bytesPerSector.toNat ≤ 65535 * 511 :=
        Nat.mul_le_mul (by omega) (by omega)
      omega
    · have hmul : v.fatSizeSectors.toNat * v.bytesPerSector.toNat ≤ 65535 * 512 :=
        Nat.mul_le_mul (by omega) (by omega)
      have hdir' := hdir.2 (by omega)
      omega
  · omega

/-- A 16-bit field of a sector. -/
theorem word16_lt {n : ℕ} (b : Buffer n) (i : ℕ) : (word16 b i).toNat < 2 ^ 16 := by
  have hlow := (b.byte i).isLt
  have hhigh := (b.byte (i + 1)).isLt
  unfold word16
  rw [BitVec.toNat_or, BitVec.toNat_shiftLeft, BitVec.toNat_setWidth, BitVec.toNat_setWidth,
    Nat.shiftLeft_eq]
  apply Nat.or_lt_two_pow
  · omega
  · omega

/-- The layout that `fat16_mount` computes is that of a mounted volume when the two fields that it
checks are not zero. -/
theorem mountedVolume_layout {vol : Volume} {partitionLba : U32} {sector : Sector}
    (hbytes : word16 sector 11 ≠ 0#32) (hsectors : (sector.byte 13).setWidth 32 ≠ 0#32) :
    MountedVolume (volumeLayout (volumeFields vol partitionLba sector)) := by
  have hbps := word16_lt sector 11
  have hentries := word16_lt sector 17
  have hfat := word16_lt sector 22
  constructor
  · exact Nat.pos_of_ne_zero fun h0 => hbytes (BitVec.eq_of_toNat_eq h0)
  · exact hbps
  · exact Nat.pos_of_ne_zero fun h0 => hsectors (BitVec.eq_of_toNat_eq h0)
  · change ((sector.byte 13).setWidth 32).toNat < 2 ^ 8
    rw [BitVec.toNat_setWidth]
    omega
  · change ((sector.byte 16).setWidth 32).toNat < 2 ^ 8
    rw [BitVec.toNat_setWidth]
    omega
  · exact hfat
  · change ((word16 sector 17 * 32#32 + word16 sector 11 - 1#32) / word16 sector 11).toNat ≤
      ((2 ^ 16 - 1) * 32 + (word16 sector 11).toNat - 1) / (word16 sector 11).toNat
    generalize word16 sector 17 = entries at *
    generalize word16 sector 11 = bytes at *
    rw [BitVec.toNat_udiv]
    apply Nat.div_le_div_right
    bv_omega
  · rfl
  · rfl

/-- A successful `fat16_mount` leaves a mounted volume, with the layout of its boot sector. -/
theorem fat16Mount_success {σ : Type} {a : Ata σ} {partitionLba : U32} {s s' : Fat16 σ}
    (hr : fat16Mount a partitionLba s = (true, s')) :
    MountedVolume s'.vol ∧ s'.mounted = true ∧ s'.dev = (a.readSector partitionLba s.dev).2 ∧
      s'.vol = volumeLayout
        (volumeFields s.vol partitionLba (a.readSector partitionLba s.dev).1.2) := by
  unfold fat16Mount at hr
  dsimp only at hr
  split_ifs at hr with hread hmagic hzero
  · exact absurd (Prod.mk.inj hr).1 (by decide)
  · exact absurd (Prod.mk.inj hr).1 (by decide)
  · obtain ⟨-, rfl⟩ := Prod.mk.inj hr
    rw [not_or] at hzero
    exact ⟨mountedVolume_layout hzero.1 hzero.2, rfl, rfl, rfl⟩
  · exact absurd (Prod.mk.inj hr).1 (by decide)

/-- A successful `fat16_mount` leaves a mounted volume, and the disk alone. -/
theorem fat16Mount_disk {partitionLba : U32} {s s' : Fat16 Disk}
    (hr : fat16Mount disk partitionLba s = (true, s')) :
    MountedVolume s'.vol ∧ s'.mounted = true ∧ s'.dev = s.dev ∧
      s'.vol = volumeLayout (volumeFields s.vol partitionLba (s.dev partitionLba)) :=
  fat16Mount_success hr

end

end AlderKernel.Fs
