import AlderKernel.Fs.Calls

/-!
# The accesses of the volume's functions

Which indices into the sector buffers, and which divisors, the functions of `fat16.c` use, in
the order in which they use them. Every list follows the function of its name, whose
state it takes from the model; the bytes of a slot are listed together.
-/

namespace AlderKernel.Fs

open Machine

/-- An index into a sector buffer, or a divisor of a division or a remainder. -/
inductive Access where
  | index (i : ℕ)
  | divisor (n : U32)

/-- The index lies inside the 512 bytes, or the divisor is not zero. -/
def Access.Safe : Access → Prop
  | .index i => i < 512
  | .divisor n => n ≠ 0#32

/-- `n` indices from `off` on. -/
def indices (off n : ℕ) : List Access := (List.range n).map fun i => .index (off + i)

/-- The indices of `zero_sector`. -/
def zeroSectorAccesses : List Access := indices 0 512

/-- The division and the remainder that place the entry of a cluster. -/
def placeAccesses (v : Volume) : List Access :=
  [.divisor v.bytesPerSector, .divisor v.bytesPerSector]

/-- The two bytes of the entry of a cluster. -/
def entryAccesses (v : Volume) (cluster : U32) : List Access :=
  [.index (offsetInSector v cluster).toNat, .index ((offsetInSector v cluster).toNat + 1)]

/-- The accesses of `fat_read_entry`. -/
def fatReadEntryAccesses (v : Volume) (cluster : U32) : List Access :=
  placeAccesses v ++ entryAccesses v cluster

/-- The accesses of `fat_write_entry`. -/
def fatWriteEntryAccesses (v : Volume) (cluster : U32) : List Access :=
  placeAccesses v ++ (List.replicate v.numFats.toNat (entryAccesses v cluster)).flatten

/-- The first bytes of slots, which are looked at. -/
def slotTests (n : ℕ) : List Access := (List.range n).map fun i => .index (i * 32)

/-- The bytes of a slot. -/
def slotAccesses (i : ℕ) : List Access := indices (i * 32) 32

/-- `copy_len`. -/
def copyLen (chunk finished : U32) : U32 :=
  if chunk - finished < 512#32 then chunk - finished else 512#32

section

variable {σ : Type} (a : Ata σ)

/-- The accesses of `fat_alloc_cluster` from cluster `c` on. -/
def allocClusterAccessesFrom : ℕ → U32 → Fat16 σ → List Access
  | 0, _, _ => []
  | turns + 1, c, s =>
    if c < maxCluster s.vol then
      let r := fatReadEntry a c s
      fatReadEntryAccesses s.vol c ++
        if r.1 = 0x0000#16 then fatWriteEntryAccesses s.vol c
        else allocClusterAccessesFrom turns (c + 1#32) r.2
    else []

/-- The accesses of `fat_alloc_cluster`. -/
def fatAllocClusterAccesses (s : Fat16 σ) : List Access :=
  .divisor 2#32 :: allocClusterAccessesFrom a (maxCluster s.vol).toNat 2#32 s

/-- The accesses of `write_entry_in_root` and `write_entry_in_dir_cluster`. -/
def writeEntryAccesses (base : U32) : ℕ → U32 → σ → List Access
  | 0, _, _ => []
  | turns + 1, s, d =>
    let r := a.readSector (base + s) d
    if ¬ r.1.1 then [] else
    match freeSlot r.1.2 with
    | some i => slotTests (i + 1) ++ slotAccesses i
    | none => slotTests 16 ++ writeEntryAccesses base turns (s + 1#32) r.2

/-- The accesses of `fat16_mkdir_root`. -/
def mkdirRootAccesses (s : Fat16 σ) : List Access :=
  if ¬ s.mounted then [] else
  let r := fatAllocCluster a s
  let cluster := r.1
  fatAllocClusterAccesses a s ++
    let s := r.2
    if cluster = 0#32 then [] else
    let base := clusterToLba s.vol cluster
    let dots := a.writeSector base (dotSector cluster) s.dev
    zeroSectorAccesses ++ slotAccesses 0 ++ slotAccesses 1 ++
      if ¬ dots.1 then [] else
      let rest := writeSectors a base .zero (s.vol.sectorsPerCluster.toNat - 1) 1#32 dots.2
      zeroSectorAccesses ++
        if ¬ rest.1 then [] else
        writeEntryAccesses a s.vol.rootStart s.vol.rootDirSectors.toNat 0#32 rest.2

/-- The accesses of the loop of `write_file_data` over the sectors of a cluster. -/
def writeClusterAccesses (data : U32 → U8) (base offset chunk : U32) :
    ℕ → U32 → U32 → σ → List Access
  | 0, _, _, _ => []
  | turns + 1, s, written, d =>
    let r := a.writeSector (base + s) (fileSector data offset written chunk) d
    zeroSectorAccesses ++
      (if written < chunk then indices 0 (copyLen chunk written).toNat else []) ++
      if ¬ r.1 then [] else
      writeClusterAccesses data base offset chunk turns (s + 1#32) (written + 512#32) r.2

/-- The accesses of the loop of `write_file_data` over the clusters. -/
def writeClustersAccesses (data : U32 → U8) : ℕ → U32 → U32 → U32 → Fat16 σ → List Access
  | 0, _, _, _, _ => []
  | turns + 1, cluster, offset, remaining, s =>
    let base := clusterToLba s.vol cluster
    let chunk := thisChunk s.vol remaining
    let r := writeClusterData a data base offset chunk s.vol.sectorsPerCluster.toNat 0#32 0#32 s.dev
    writeClusterAccesses a data base offset chunk s.vol.sectorsPerCluster.toNat 0#32 0#32 s.dev ++
      let s := { s with dev := r.2 }
      if ¬ r.1 then [] else
      if remaining - chunk = 0#32 then fatWriteEntryAccesses s.vol cluster else
      let next := fatAllocCluster a s
      fatAllocClusterAccesses a s ++
        if next.1 = 0#32 then [] else
        fatWriteEntryAccesses s.vol cluster ++
          writeClustersAccesses data turns next.1 (offset + chunk) (remaining - chunk)
            (fatWriteEntry a cluster (next.1.setWidth 16) next.2)

/-- The accesses of what `fat16_create_file_root` and `fat16_create_file_in_dir` share. -/
def storeFileAccesses (data : U32 → U8) (size : U32) (s : Fat16 σ) : List Access :=
  if 0#32 < size then
    let r := fatAllocCluster a s
    fatAllocClusterAccesses a s ++
      if r.1 = 0#32 then [] else writeClustersAccesses a data (2 ^ 32) r.1 0#32 size r.2
  else []

/-- The accesses of `fat16_create_file_root` and `fat16_create_file_in_dir`, for the directory in
the given sectors. -/
def createFileAccesses (base : U32) (sectors : ℕ) (data : U32 → U8) (size : U32) (s : Fat16 σ) :
    List Access :=
  if ¬ s.mounted then [] else
  storeFileAccesses a data size s ++
    match storeFile a data size s with
    | some (some _, s) => writeEntryAccesses a base sectors 0#32 s.dev
    | _ => []

/-- The accesses of the loop of `list_dir_sectors` over the slots of a sector. -/
def listSlotsAccesses (sector : Sector) : ℕ → ℕ → List Access
  | 0, _ => []
  | turns + 1, i =>
    slotAccesses i ++
      if (sector.slice (i * 32) 32 : DirEntry).byte 0 = 0x00#8 then []
      else listSlotsAccesses sector turns (i + 1)

/-- The accesses of the loop of `find_in_sectors` over the slots of a sector. -/
def findSlotsAccesses (sector : Sector) (name ext : List U8) : ℕ → ℕ → List Access
  | 0, _ => []
  | turns + 1, i =>
    let e := sector.slice (i * 32) 32
    slotAccesses i ++
      if e.byte 0 = 0x00#8 then [] else
      if ¬ slotSkipped e ∧ namesEqual e name ext then [] else
      findSlotsAccesses sector name ext turns (i + 1)

/-- The accesses of `list_dir_sectors`, from sector `s` on. -/
def listDirSectorsAccesses (startLba : U32) (maxEntries : ℤ) : ℕ → U32 → Listing → σ → List Access
  | 0, _, _, _ => []
  | turns + 1, s, l, d =>
    let r := a.readSector (startLba + s) d
    if ¬ r.1.1 then [] else
    let slots := listSlots r.1.2 maxEntries 16 0 l
    listSlotsAccesses r.1.2 16 0 ++
      if slots.1 then []
      else listDirSectorsAccesses startLba maxEntries turns (s + 1#32) slots.2 r.2

/-- The accesses of `find_in_sectors`, from sector `s` on. -/
def findInSectorsAccesses (startLba : U32) (name ext : List U8) : ℕ → U32 → σ → List Access
  | 0, _, _ => []
  | turns + 1, s, d =>
    let r := a.readSector (startLba + s) d
    if ¬ r.1.1 then [] else
    findSlotsAccesses r.1.2 name ext 16 0 ++
      match findSlots r.1.2 name ext 16 0 with
      | some _ => []
      | none => findInSectorsAccesses startLba name ext turns (s + 1#32) r.2

/-- The accesses of the loop of `fat16_read_file` over the sectors of a cluster. -/
def readClusterAccesses (base chunk : U32) : ℕ → U32 → U32 → σ → List Access
  | 0, _, _, _ => []
  | turns + 1, s, readInCluster, d =>
    if readInCluster < chunk then
      let r := a.readSector (base + s) d
      if ¬ r.1.1 then [] else
      indices 0 (copyLen chunk readInCluster).toNat ++
        readClusterAccesses base chunk turns (s + 1#32) (readInCluster + 512#32) r.2
    else []

/-- The accesses of the loop of `fat16_read_file` over the clusters. -/
def readClustersAccesses (bufferSize : U32) :
    ℕ → U32 → U32 → U32 → (U32 → U8) → Fat16 σ → List Access
  | 0, _, _, _, _, _ => []
  | turns + 1, cluster, offset, remaining, buffer, s =>
    if 0#32 < remaining then
      let base := clusterToLba s.vol cluster
      let chunk := thisChunk s.vol remaining
      let r := readClusterData a base offset chunk bufferSize
        s.vol.sectorsPerCluster.toNat 0#32 0#32
        buffer s.dev
      readClusterAccesses a base chunk s.vol.sectorsPerCluster.toNat 0#32 0#32 s.dev ++
        let s := { s with dev := r.2 }
        if ¬ r.1.1 then [] else
        if remaining - chunk = 0#32 then [] else
        let next := fatReadEntry a cluster s
        fatReadEntryAccesses s.vol cluster ++
          if 0xFFF8#16 ≤ next.1 then [] else
          readClustersAccesses bufferSize turns (next.1.setWidth 32) (offset + chunk)
            (remaining - chunk) r.1.2 next.2
    else []

/-- The accesses of `fat16_read_file`. -/
def readFileAccesses (firstCluster size : U32) (buffer : U32 → U8) (bufferSize : U32)
    (s : Fat16 σ) : List Access :=
  if ¬ s.mounted then [] else
  if size = 0#32 ∨ firstCluster = 0#32 then [] else
  readClustersAccesses a bufferSize (2 ^ 32) firstCluster 0#32 size buffer s

end

/-- A call of the module on a mounted volume. -/
inductive Operation where
  | make (call : Call)
  | listRoot (maxEntries : ℤ)
  | listDir (dirCluster : U32) (maxEntries : ℤ)
  | findInRoot (name ext : List U8)
  | findInDir (dirCluster : U32) (name ext : List U8)
  | readFile (firstCluster size : U32) (buffer : U32 → U8) (bufferSize : U32)

section

variable {σ : Type} (a : Ata σ)

/-- The state after an operation. -/
def Operation.run : Operation → Fat16 σ → Option (Fat16 σ)
  | .make call, s => (call.run a s).map Prod.snd
  | .listRoot maxEntries, s => some (fat16ListRoot a maxEntries s).2
  | .listDir dirCluster maxEntries, s => some (fat16ListDir a dirCluster maxEntries s).2
  | .findInRoot name ext, s => some (fat16FindInRoot a name ext s).2
  | .findInDir dirCluster name ext, s => some (fat16FindInDir a dirCluster name ext s).2
  | .readFile firstCluster size buffer bufferSize, s =>
    (fat16ReadFile a firstCluster size buffer bufferSize s).map Prod.snd

/-- The accesses of an operation. -/
def Operation.accesses : Operation → Fat16 σ → List Access
  | .make (.mkdirRoot _ _), s => mkdirRootAccesses a s
  | .make (.createFileRoot _ _ data size), s =>
    createFileAccesses a s.vol.rootStart s.vol.rootDirSectors.toNat data size s
  | .make (.createFileInDir dirCluster _ _ data size), s =>
    createFileAccesses a (clusterToLba s.vol dirCluster) s.vol.sectorsPerCluster.toNat data size s
  | .listRoot maxEntries, s =>
    if ¬ s.mounted then [] else
    listDirSectorsAccesses a s.vol.rootStart maxEntries s.vol.rootDirSectors.toNat 0#32 ⟨0, []⟩
      s.dev
  | .listDir dirCluster maxEntries, s =>
    if ¬ s.mounted then [] else
    listDirSectorsAccesses a (clusterToLba s.vol dirCluster) maxEntries
      s.vol.sectorsPerCluster.toNat 0#32 ⟨0, []⟩ s.dev
  | .findInRoot name ext, s =>
    if ¬ s.mounted then [] else
    findInSectorsAccesses a s.vol.rootStart name ext s.vol.rootDirSectors.toNat 0#32 s.dev
  | .findInDir dirCluster name ext, s =>
    if ¬ s.mounted then [] else
    findInSectorsAccesses a (clusterToLba s.vol dirCluster) name ext
      s.vol.sectorsPerCluster.toNat 0#32 s.dev
  | .readFile firstCluster size buffer bufferSize, s =>
    readFileAccesses a firstCluster size buffer bufferSize s

/-- The accesses of a sequence of operations. -/
def sequenceAccesses : List Operation → Fat16 σ → List Access
  | [], _ => []
  | op :: ops, s =>
    op.accesses a s ++
      match op.run a s with
      | some s => sequenceAccesses ops s
      | none => []

end

end AlderKernel.Fs
