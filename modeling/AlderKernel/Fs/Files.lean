import AlderKernel.Fs.Fat16

/-!
# Directories and files

The second part of `kernel/fs/fat16.c`: directory entries, making directories and files, and
listing, looking up and reading them. A C string is the list of its bytes, and ends at
its first zero byte or at the end of the list. Caller's data and buffers are functions of
the index.
-/

namespace AlderKernel.Fs

open Machine

/-- The characters of a C string in front of its `'\0'`. -/
def cString (s : List U8) : List U8 := s.takeWhile fun c => c ≠ 0#8

/-- `copy_padded`: truncated or padded with spaces to exactly `len` bytes. -/
def copyPadded (len : ℕ) (src : List U8) : List U8 :=
  let copied := (cString src).take len
  copied ++ List.replicate (len - copied.length) 0x20#8

/-- A directory entry, 32 bytes. -/
abbrev DirEntry := Buffer 32

/-- `set_dir_entry`. -/
def setDirEntry (name ext : List U8) (attr : U8) (cluster size : U32) : DirEntry :=
  .ofList <| copyPadded 8 name ++ copyPadded 3 ext ++ [attr] ++ List.replicate 14 0#8 ++
    [byteOf cluster 0, byteOf cluster 1, byteOf size 0, byteOf size 1, byteOf size 2, byteOf size 3]

/-- The attribute of a directory. -/
def attrDirectory : U8 := 0x10#8

/-- The attribute of a regular file. -/
def attrFile : U8 := 0x20#8

/-- The slot of a sector is free or deleted. -/
def slotFree (sector : Sector) (i : ℕ) : Bool :=
  sector.byte (i * 32) = 0x00#8 ∨ sector.byte (i * 32) = 0xE5#8

/-- The first of the 16 slots of a sector that is free or deleted. -/
def freeSlot (sector : Sector) : Option ℕ := (List.range 16).find? (slotFree sector)

section

variable {σ : Type} (a : Ata σ)

/-- The loop that `write_entry_in_root` and `write_entry_in_dir_cluster` share: the entry goes to
the first free slot of the sectors `base + s`. -/
def writeEntryInSectors (base : U32) (entry : DirEntry) : ℕ → U32 → σ → Bool × σ
  | 0, _, d => (false, d)
  | turns + 1, s, d =>
    let lba := base + s
    let r := a.readSector lba d
    if ¬ r.1.1 then (false, r.2) else
    match freeSlot r.1.2 with
    | some i => a.writeSector lba (r.1.2.paste (i * 32) entry) r.2
    | none => writeEntryInSectors base entry turns (s + 1#32) r.2

/-- `write_entry_in_root`. -/
def writeEntryInRoot (entry : DirEntry) (s : Fat16 σ) : Bool × Fat16 σ :=
  let r := writeEntryInSectors a s.vol.rootStart entry s.vol.rootDirSectors.toNat 0#32 s.dev
  (r.1, { s with dev := r.2 })

/-- `write_entry_in_dir_cluster`. -/
def writeEntryInDirCluster (dirCluster : U32) (entry : DirEntry) (s : Fat16 σ) :
    Bool × Fat16 σ :=
  let r := writeEntryInSectors a (clusterToLba s.vol dirCluster) entry
    s.vol.sectorsPerCluster.toNat 0#32 s.dev
  (r.1, { s with dev := r.2 })

/-- The first sector of a new directory, with the entries `.` and `..`. -/
def dotSector (cluster : U32) : Sector :=
  ((Buffer.zero : Sector).paste 0 (setDirEntry [0x2E#8] [] attrDirectory cluster 0#32)).paste 32
    (setDirEntry [0x2E#8, 0x2E#8] [] attrDirectory 0#32 0#32)

/-- `fat16_mkdir_root`: the value of `*out_cluster` where the code returns 1. -/
def fat16MkdirRoot (name ext : List U8) (s : Fat16 σ) : Option U32 × Fat16 σ :=
  if ¬ s.mounted then (none, s) else
  let r := fatAllocCluster a s
  let cluster := r.1
  let s := r.2
  if cluster = 0#32 then (none, s) else
  let base := clusterToLba s.vol cluster
  let dots := a.writeSector base (dotSector cluster) s.dev
  if ¬ dots.1 then (none, { s with dev := dots.2 }) else
  let rest := writeSectors a base .zero (s.vol.sectorsPerCluster.toNat - 1) 1#32 dots.2
  if ¬ rest.1 then (none, { s with dev := rest.2 }) else
  let w := writeEntryInRoot a (setDirEntry name ext attrDirectory cluster 0#32)
    { s with dev := rest.2 }
  if ¬ w.1 then (none, w.2) else (some cluster, w.2)

/-- The buffer that `write_file_data` fills for one sector: up to 512 of the bytes
left of the chunk, and zeros behind them. -/
def fileSector (data : U32 → U8) (offset written chunk : U32) : Sector :=
  if written < chunk then
    let copyLen := if chunk - written < 512#32 then chunk - written else 512#32
    .ofFn fun b => if b < copyLen.toNat then data (offset + written + BitVec.ofNat 32 b) else 0#8
  else .zero

/-- The loop of `write_file_data` over the sectors of a cluster. -/
def writeClusterData (data : U32 → U8) (base offset chunk : U32) :
    ℕ → U32 → U32 → σ → Bool × σ
  | 0, _, _, d => (true, d)
  | turns + 1, s, written, d =>
    let r := a.writeSector (base + s) (fileSector data offset written chunk) d
    if ¬ r.1 then (false, r.2) else
    writeClusterData data base offset chunk turns (s + 1#32) (written + 512#32) r.2

/-- `bytes_per_cluster`. -/
def bytesPerCluster (v : Volume) : U32 := v.sectorsPerCluster * v.bytesPerSector

/-- `this_chunk`. -/
def thisChunk (v : Volume) (remaining : U32) : U32 :=
  if remaining < bytesPerCluster v then remaining else bytesPerCluster v

/-- The loop of `write_file_data` over the clusters. It has no result when it does not
end within the given number of turns. -/
def writeClusters (data : U32 → U8) : ℕ → U32 → U32 → U32 → Fat16 σ → Option (Bool × Fat16 σ)
  | 0, _, _, _, _ => none
  | turns + 1, cluster, offset, remaining, s =>
    let base := clusterToLba s.vol cluster
    let chunk := thisChunk s.vol remaining
    let r := writeClusterData a data base offset chunk s.vol.sectorsPerCluster.toNat 0#32 0#32 s.dev
    let s := { s with dev := r.2 }
    if ¬ r.1 then some (false, s) else
    if remaining - chunk = 0#32 then some (true, fatWriteEntry a cluster 0xFFFF#16 s) else
    let next := fatAllocCluster a s
    if next.1 = 0#32 then some (false, next.2) else
    writeClusters data turns next.1 (offset + chunk) (remaining - chunk)
      (fatWriteEntry a cluster (next.1.setWidth 16) next.2)

/-- `write_file_data`. -/
def writeFileData (firstCluster : U32) (data : U32 → U8) (size : U32) (s : Fat16 σ) :
    Option (Bool × Fat16 σ) :=
  writeClusters a data (2 ^ 32) firstCluster 0#32 size s

/-- The part that `fat16_create_file_root` and `fat16_create_file_in_dir` share: the first
cluster of the stored data, which is 0 for no data. -/
def storeFile (data : U32 → U8) (size : U32) (s : Fat16 σ) : Option (Option U32 × Fat16 σ) :=
  if 0#32 < size then
    let r := fatAllocCluster a s
    if r.1 = 0#32 then some (none, r.2) else
    (writeFileData a r.1 data size r.2).map fun w =>
      if ¬ w.1 then (none, w.2) else (some r.1, w.2)
  else some (some 0#32, s)

/-- `fat16_create_file_root`. -/
def fat16CreateFileRoot (name ext : List U8) (data : U32 → U8) (size : U32) (s : Fat16 σ) :
    Option (Bool × Fat16 σ) :=
  if ¬ s.mounted then some (false, s) else
  (storeFile a data size s).map fun r =>
    match r.1 with
    | none => (false, r.2)
    | some firstCluster =>
      writeEntryInRoot a (setDirEntry name ext attrFile firstCluster size) r.2

/-- `fat16_create_file_in_dir`. -/
def fat16CreateFileInDir (dirCluster : U32) (name ext : List U8) (data : U32 → U8) (size : U32)
    (s : Fat16 σ) : Option (Bool × Fat16 σ) :=
  if ¬ s.mounted then some (false, s) else
  (storeFile a data size s).map fun r =>
    match r.1 with
    | none => (false, r.2)
    | some firstCluster =>
      writeEntryInDirCluster a dirCluster (setDirEntry name ext attrFile firstCluster size) r.2

end

/-- `if (c >= 'a' && c <= 'z') c = c - 32`. -/
def foldCase (c : U8) : U8 := if 0x61#8 ≤ c ∧ c ≤ 0x7A#8 then c - 32#8 else c

/-- `names_equal`: the query is folded to upper case, the entry is not. -/
def namesEqual (entry : DirEntry) (name ext : List U8) : Bool :=
  (List.range 8).all (fun i => entry.byte i == foldCase ((copyPadded 8 name).getD i 0#8)) &&
    (List.range 3).all fun i => entry.byte (8 + i) == foldCase ((copyPadded 3 ext).getD i 0#8)

/-- `trim_copy`: the `len` bytes from `off` on without trailing spaces. The terminating `'\0'` of
the destination is left out. -/
def trimCopy (e : DirEntry) (off len : ℕ) : List U8 :=
  ((List.range len).map fun i => e.byte (off + i)).rdropWhile fun c => c = 0x20#8

/-- `fat16_dirent_t`. -/
structure Dirent where
  name : List U8
  ext : List U8
  attr : U8
  cluster : U32
  size : U32
  deriving DecidableEq

/-- `fill_dirent`. -/
def fillDirent (e : DirEntry) : Dirent where
  name := trimCopy e 0 8
  ext := trimCopy e 8 3
  attr := e.byte 11
  cluster := word16 e 26
  size := (e.byte 28).setWidth 32 ||| (e.byte 29).setWidth 32 <<< 8 |||
    (e.byte 30).setWidth 32 <<< 16 ||| (e.byte 31).setWidth 32 <<< 24

/-- A slot that listing and lookup pass over. -/
def slotSkipped (e : DirEntry) : Bool := e.byte 0 = 0xE5#8 ∨ e.byte 11 = 0x0F#8

/-- What `list_dir_sectors` has gathered: the number of entries, and what it stored in `out`. -/
structure Listing where
  count : ℕ
  out : List Dirent

/-- The loop of `list_dir_sectors` over the slots of a sector: whether it met the end marker. -/
def listSlots (sector : Sector) (maxEntries : ℤ) : ℕ → ℕ → Listing → Bool × Listing
  | 0, _, l => (false, l)
  | turns + 1, i, l =>
    let e := sector.slice (i * 32) 32
    if e.byte 0 = 0x00#8 then (true, l) else
    if slotSkipped e then listSlots sector maxEntries turns (i + 1) l else
    listSlots sector maxEntries turns (i + 1)
      ⟨l.count + 1, if (l.count : ℤ) < maxEntries then l.out ++ [fillDirent e] else l.out⟩

/-- The loop of `find_in_sectors` over the slots of a sector: the search goes on behind the
sector, or it ends, with an entry or without. -/
def findSlots (sector : Sector) (name ext : List U8) : ℕ → ℕ → Option (Option Dirent)
  | 0, _ => none
  | turns + 1, i =>
    let e := sector.slice (i * 32) 32
    if e.byte 0 = 0x00#8 then some none else
    if slotSkipped e then findSlots sector name ext turns (i + 1) else
    if namesEqual e name ext then some (some (fillDirent e)) else
    findSlots sector name ext turns (i + 1)

section

variable {σ : Type} (a : Ata σ)

/-- `list_dir_sectors`, from sector `s` on. -/
def listDirSectors (startLba : U32) (maxEntries : ℤ) : ℕ → U32 → Listing → σ → Listing × σ
  | 0, _, l, d => (l, d)
  | turns + 1, s, l, d =>
    let r := a.readSector (startLba + s) d
    if ¬ r.1.1 then (l, r.2) else
    let slots := listSlots r.1.2 maxEntries 16 0 l
    if slots.1 then (slots.2, r.2) else
    listDirSectors startLba maxEntries turns (s + 1#32) slots.2 r.2

/-- `fat16_list_root`: the value returned, and what is stored in `out`. -/
def fat16ListRoot (maxEntries : ℤ) (s : Fat16 σ) : (ℤ × List Dirent) × Fat16 σ :=
  if ¬ s.mounted then ((-1, []), s) else
  let r := listDirSectors a s.vol.rootStart maxEntries s.vol.rootDirSectors.toNat 0#32 ⟨0, []⟩ s.dev
  ((r.1.count, r.1.out), { s with dev := r.2 })

/-- `fat16_list_dir`. -/
def fat16ListDir (dirCluster : U32) (maxEntries : ℤ) (s : Fat16 σ) :
    (ℤ × List Dirent) × Fat16 σ :=
  if ¬ s.mounted then ((-1, []), s) else
  let r := listDirSectors a (clusterToLba s.vol dirCluster) maxEntries
    s.vol.sectorsPerCluster.toNat 0#32 ⟨0, []⟩ s.dev
  ((r.1.count, r.1.out), { s with dev := r.2 })

/-- `find_in_sectors`, from sector `s` on: the value of `*out` where the code returns 1. -/
def findInSectors (startLba : U32) (name ext : List U8) : ℕ → U32 → σ → Option Dirent × σ
  | 0, _, d => (none, d)
  | turns + 1, s, d =>
    let r := a.readSector (startLba + s) d
    if ¬ r.1.1 then (none, r.2) else
    match findSlots r.1.2 name ext 16 0 with
    | some result => (result, r.2)
    | none => findInSectors startLba name ext turns (s + 1#32) r.2

/-- `fat16_find_in_root`. -/
def fat16FindInRoot (name ext : List U8) (s : Fat16 σ) : Option Dirent × Fat16 σ :=
  if ¬ s.mounted then (none, s) else
  let r := findInSectors a s.vol.rootStart name ext s.vol.rootDirSectors.toNat 0#32 s.dev
  (r.1, { s with dev := r.2 })

/-- `fat16_find_in_dir`. -/
def fat16FindInDir (dirCluster : U32) (name ext : List U8) (s : Fat16 σ) :
    Option Dirent × Fat16 σ :=
  if ¬ s.mounted then (none, s) else
  let r := findInSectors a (clusterToLba s.vol dirCluster) name ext
    s.vol.sectorsPerCluster.toNat 0#32 s.dev
  (r.1, { s with dev := r.2 })

/-- The copy loop of `fat16_read_file`: `copyLen` bytes of the sector go to the buffer from
`dest` on, as far as the buffer reaches. -/
def copyToBuffer (sector : Sector) (dest copyLen bufferSize : U32) (buffer : U32 → U8) :
    U32 → U8 := fun i =>
  if i - dest < copyLen ∧ i < bufferSize then sector.byte (i - dest).toNat else buffer i

/-- The loop of `fat16_read_file` over the sectors of a cluster. -/
def readClusterData (base offset chunk bufferSize : U32) :
    ℕ → U32 → U32 → (U32 → U8) → σ → (Bool × (U32 → U8)) × σ
  | 0, _, _, buffer, d => ((true, buffer), d)
  | turns + 1, s, readInCluster, buffer, d =>
    if readInCluster < chunk then
      let r := a.readSector (base + s) d
      if ¬ r.1.1 then ((false, buffer), r.2) else
      let copyLen := if chunk - readInCluster < 512#32 then chunk - readInCluster else 512#32
      readClusterData base offset chunk bufferSize turns (s + 1#32) (readInCluster + 512#32)
        (copyToBuffer r.1.2 (offset + readInCluster) copyLen bufferSize buffer) r.2
    else ((true, buffer), d)

/-- The loop of `fat16_read_file` over the clusters. It has no result when it does not
end within the given number of turns. -/
def readClusters (bufferSize : U32) :
    ℕ → U32 → U32 → U32 → (U32 → U8) → Fat16 σ → Option ((Bool × (U32 → U8)) × Fat16 σ)
  | 0, _, _, _, _, _ => none
  | turns + 1, cluster, offset, remaining, buffer, s =>
    if 0#32 < remaining then
      let base := clusterToLba s.vol cluster
      let chunk := thisChunk s.vol remaining
      let r := readClusterData a base offset chunk bufferSize
        s.vol.sectorsPerCluster.toNat 0#32 0#32
        buffer s.dev
      let s := { s with dev := r.2 }
      if ¬ r.1.1 then some (r.1, s) else
      if remaining - chunk = 0#32 then some (r.1, s) else
      let next := fatReadEntry a cluster s
      if 0xFFF8#16 ≤ next.1 then some (r.1, next.2) else
      readClusters bufferSize turns (next.1.setWidth 32) (offset + chunk) (remaining - chunk) r.1.2
        next.2
    else some ((true, buffer), s)

/-- `fat16_read_file`: the value returned, and the buffer after the call. -/
def fat16ReadFile (firstCluster size : U32) (buffer : U32 → U8) (bufferSize : U32) (s : Fat16 σ) :
    Option ((Bool × (U32 → U8)) × Fat16 σ) :=
  if ¬ s.mounted then some ((false, buffer), s) else
  if size = 0#32 ∨ firstCluster = 0#32 then some ((true, buffer), s) else
  readClusters a bufferSize (2 ^ 32) firstCluster 0#32 size buffer s

end

end AlderKernel.Fs
