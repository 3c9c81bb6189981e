import AlderKernel.Machine.Buffer

/-!
# The FAT16 volume

The first part of `kernel/fs/fat16.c`: formatting and mounting a volume, the entries of its
FAT, and the allocation of clusters. The sector device is a parameter, whose transfers may fail
and whose failed reads may leave anything in the buffer.
-/

namespace AlderKernel.Fs

open Machine

/-- A sector buffer, `unsigned char sector[BYTES_PER_SECTOR]`. -/
abbrev Sector := Buffer 512

/-- What `drivers/ata.h` offers, over the states of a device: whether the transfer succeeded, and
for a read what is in the buffer after it. -/
structure Ata (σ : Type) where
  readSector : U32 → σ → (Bool × Sector) × σ
  writeSector : U32 → Sector → σ → Bool × σ

/-- `SECTORS_PER_CLUSTER`. -/
def sectorsPerCluster : U32 := 64#32

/-- `RESERVED_SECTORS`. -/
def reservedSectors : U32 := 1#32

/-- `NUM_FATS`. -/
def numFats : U32 := 2#32

/-- `ROOT_ENTRIES`. -/
def rootEntries : U32 := 512#32

/-- `ROOT_DIR_SECTORS`. -/
def rootDirSectors : U32 := (rootEntries * 32#32) / 512#32

/-- `FAT_SIZE_SECTORS`. -/
def fatSizeSectors : U32 := 256#32

/-- `(unsigned char)((v >> 8 * i) & 0xFF)`. -/
def byteOf (v : U32) (i : ℕ) : U8 := (v >>> (8 * i)).setWidth 8

section

variable {σ : Type} (a : Ata σ)

/-- A loop that writes the same buffer to the sectors `base + i`, `base + i + 1` and so on, and
gives up at the first failure. -/
def writeSectors (base : U32) (sector : Sector) : ℕ → U32 → σ → Bool × σ
  | 0, _, d => (true, d)
  | turns + 1, i, d =>
    let r := a.writeSector (base + i) sector d
    if r.1 then writeSectors base sector turns (i + 1#32) r.2 else (false, r.2)

/-- The boot sector that `fat16_format` writes. -/
def bootSector (partitionLba sectorCount : U32) : Sector :=
  .ofList <|
    [0xEB#8, 0x3C#8, 0x90#8] ++
    [0x41#8, 0x4C#8, 0x44#8, 0x45#8, 0x52#8, 0x4B#8, 0x52#8, 0x4E#8] ++
    [byteOf 512#32 0, byteOf 512#32 1, sectorsPerCluster.setWidth 8] ++
    [byteOf reservedSectors 0, byteOf reservedSectors 1, numFats.setWidth 8] ++
    [byteOf rootEntries 0, byteOf rootEntries 1, 0#8, 0#8, 0xF8#8] ++
    [byteOf fatSizeSectors 0, byteOf fatSizeSectors 1, 63#8, 0#8, 255#8, 0#8] ++
    [byteOf partitionLba 0, byteOf partitionLba 1, byteOf partitionLba 2, byteOf partitionLba 3] ++
    [byteOf sectorCount 0, byteOf sectorCount 1, byteOf sectorCount 2, byteOf sectorCount 3] ++
    [0x80#8, 0#8, 0x29#8, 0x78#8, 0x56#8, 0x34#8, 0x12#8] ++
    [0x41#8, 0x4C#8, 0x44#8, 0x45#8, 0x52#8, 0x4B#8, 0x52#8, 0x4E#8, 0x4C#8, 0x20#8, 0x20#8] ++
    [0x46#8, 0x41#8, 0x54#8, 0x31#8, 0x36#8, 0x20#8, 0x20#8, 0x20#8] ++
    List.replicate 448 0#8 ++ [0x55#8, 0xAA#8]

/-- The first sector of an empty FAT. -/
def firstFatSector : Sector := .ofList [0xF8#8, 0xFF#8, 0xFF#8, 0xFF#8]

/-- The loop of `fat16_format` over the FAT copies. -/
def formatFats (fatStart : U32) : ℕ → U32 → σ → Bool × σ
  | 0, _, d => (true, d)
  | turns + 1, copy, d =>
    let base := fatStart + copy * fatSizeSectors
    let first := a.writeSector base firstFatSector d
    if ¬ first.1 then (false, first.2) else
    let rest := writeSectors a base .zero (fatSizeSectors.toNat - 1) 1#32 first.2
    if ¬ rest.1 then (false, rest.2) else
    formatFats fatStart turns (copy + 1#32) rest.2

/-- The number of clusters of a partition, as `fat16_format` computes it. -/
def clusterCount (sectorCount : U32) : U32 :=
  (sectorCount - (reservedSectors + numFats * fatSizeSectors + rootDirSectors)) / sectorsPerCluster

/-- `fat16_format`. -/
def fat16Format (partitionLba sectorCount : U32) (d : σ) : Bool × σ :=
  let nonDataSectors := reservedSectors + numFats * fatSizeSectors + rootDirSectors
  if sectorCount ≤ nonDataSectors then (false, d) else
  if clusterCount sectorCount < 4085#32 ∨ 65524#32 < clusterCount sectorCount then (false, d) else
  let boot := a.writeSector partitionLba (bootSector partitionLba sectorCount) d
  if ¬ boot.1 then (false, boot.2) else
  let fatStart := partitionLba + reservedSectors
  let fats := formatFats a fatStart numFats.toNat 0#32 boot.2
  if ¬ fats.1 then (false, fats.2) else
  let rootStart := fatStart + numFats * fatSizeSectors
  writeSectors a rootStart .zero rootDirSectors.toNat 0#32 fats.2

end

/-- `fat16_volume_t`. -/
structure Volume where
  partitionLba : U32
  bytesPerSector : U32
  sectorsPerCluster : U32
  reservedSectors : U32
  numFats : U32
  rootEntries : U32
  fatSizeSectors : U32
  rootDirSectors : U32
  fatStart : U32
  rootStart : U32
  dataStart : U32
  deriving DecidableEq

/-- The state of `fat16.c`: its static variables and the device. -/
structure Fat16 (σ : Type) where
  /-- `vol`. -/
  vol : Volume
  /-- `mounted`. -/
  mounted : Bool
  dev : σ
  /-- Not a variable of the code: whether a sector buffer was indexed outside its 512 bytes, or a
  division by zero was made. -/
  overrun : Bool

section

variable {σ : Type} (a : Ata σ)

/-- `sector[i] | (sector[i + 1] << 8)`. -/
def word16 {n : ℕ} (b : Buffer n) (i : ℕ) : U32 :=
  (b.byte i).setWidth 32 ||| (b.byte (i + 1)).setWidth 32 <<< 8

/-- The fields that `fat16_mount` reads from a boot sector. -/
def volumeFields (v : Volume) (partitionLba : U32) (sector : Sector) : Volume :=
  { v with
    partitionLba := partitionLba
    bytesPerSector := word16 sector 11
    sectorsPerCluster := (sector.byte 13).setWidth 32
    reservedSectors := word16 sector 14
    numFats := (sector.byte 16).setWidth 32
    rootEntries := word16 sector 17
    fatSizeSectors := word16 sector 22 }

/-- The fields that `fat16_mount` computes from those. -/
def volumeLayout (v : Volume) : Volume :=
  let rootDirSectors := (v.rootEntries * 32#32 + v.bytesPerSector - 1#32) / v.bytesPerSector
  let fatStart := v.partitionLba + v.reservedSectors
  let rootStart := fatStart + v.numFats * v.fatSizeSectors
  { v with rootDirSectors, fatStart, rootStart, dataStart := rootStart + rootDirSectors }

/-- `fat16_mount`. -/
def fat16Mount (partitionLba : U32) (s : Fat16 σ) : Bool × Fat16 σ :=
  let r := a.readSector partitionLba s.dev
  let sector := r.1.2
  if ¬ r.1.1 then (false, { s with dev := r.2 }) else
  if sector.byte 510 ≠ 0x55#8 ∨ sector.byte 511 ≠ 0xAA#8 then (false, { s with dev := r.2 }) else
  let vol := volumeFields s.vol partitionLba sector
  if vol.bytesPerSector = 0#32 ∨ vol.sectorsPerCluster = 0#32 then
    (false, { s with vol := vol, dev := r.2 })
  else (true, { s with vol := volumeLayout vol, mounted := true, dev := r.2 })

/-- `cluster_to_lba`. -/
def clusterToLba (v : Volume) (cluster : U32) : U32 :=
  v.dataStart + (cluster - 2#32) * v.sectorsPerCluster

/-- `byte_offset / vol.bytes_per_sector`. -/
def sectorIndex (v : Volume) (cluster : U32) : U32 := cluster * 2#32 / v.bytesPerSector

/-- `byte_offset % vol.bytes_per_sector`. -/
def offsetInSector (v : Volume) (cluster : U32) : U32 := cluster * 2#32 % v.bytesPerSector

/-- The access to the entry of a cluster divides by zero or leaves the sector buffer. -/
def entryOverruns (v : Volume) (cluster : U32) : Bool :=
  v.bytesPerSector = 0#32 ∨ 512 ≤ (offsetInSector v cluster).toNat + 1

/-- `fat_read_entry`. A failed transfer is not noticed. -/
def fatReadEntry (cluster : U32) (s : Fat16 σ) : U16 × Fat16 σ :=
  let r := a.readSector (s.vol.fatStart + sectorIndex s.vol cluster) s.dev
  ((word16 r.1.2 (offsetInSector s.vol cluster).toNat).setWidth 16,
    { s with dev := r.2, overrun := s.overrun || entryOverruns s.vol cluster })

/-- The sector with the two bytes of an entry replaced. -/
def setEntry (sector : Sector) (offset : ℕ) (value : U16) : Sector :=
  (sector.set offset (value.setWidth 8)).set (offset + 1) ((value >>> 8).setWidth 8)

/-- The loop of `fat_write_entry` over the FAT copies. -/
def writeCopies (v : Volume) (cluster : U32) (value : U16) : ℕ → U32 → σ → σ
  | 0, _, d => d
  | turns + 1, copy, d =>
    let lba := v.fatStart + copy * v.fatSizeSectors + sectorIndex v cluster
    let r := a.readSector lba d
    let sector := setEntry r.1.2 (offsetInSector v cluster).toNat value
    writeCopies v cluster value turns (copy + 1#32) (a.writeSector lba sector r.2).2

/-- `fat_write_entry`. Failed transfers are not noticed. -/
def fatWriteEntry (cluster : U32) (value : U16) (s : Fat16 σ) : Fat16 σ :=
  { s with
    dev := writeCopies a s.vol cluster value s.vol.numFats.toNat 0#32 s.dev
    overrun := s.overrun || entryOverruns s.vol cluster }

/-- `max_cluster`. -/
def maxCluster (v : Volume) : U32 := v.fatSizeSectors * v.bytesPerSector / 2#32

/-- The loop of `fat_alloc_cluster` from cluster `c` on. -/
def allocClusterFrom : ℕ → U32 → Fat16 σ → U32 × Fat16 σ
  | 0, _, s => (0#32, s)
  | turns + 1, c, s =>
    if c < maxCluster s.vol then
      let r := fatReadEntry a c s
      if r.1 = 0x0000#16 then (c, fatWriteEntry a c 0xFFFF#16 r.2)
      else allocClusterFrom turns (c + 1#32) r.2
    else (0#32, s)

/-- `fat_alloc_cluster`: a free cluster, marked as the end of a chain, or 0. -/
def fatAllocCluster (s : Fat16 σ) : U32 × Fat16 σ :=
  allocClusterFrom a (maxCluster s.vol).toNat 2#32 s

end

end AlderKernel.Fs
