import AlderKernel.Fs.Calls
import AlderKernel.Fs.Mbr

/-!
# File systems over two devices

When a map from the states of one device to the states of another one commutes with the transfers,
it commutes with everything that `fat16.c` and `mbr.c` make of transfers. What is known about these
functions over the one device is then known over the other.
-/

namespace AlderKernel.Fs

open Machine

/-- The second device does with `f d` what the first one does with `d`. -/
structure DeviceMap {σ τ : Type} (a : Ata σ) (b : Ata τ) (f : σ → τ) : Prop where
  readSector : ∀ lba d, b.readSector lba (f d) = Prod.map id f (a.readSector lba d)
  writeSector : ∀ lba sector d,
    b.writeSector lba sector (f d) = Prod.map id f (a.writeSector lba sector d)

/-- The same variables over another device. -/
def Fat16.map {σ τ : Type} (f : σ → τ) (s : Fat16 σ) : Fat16 τ :=
  ⟨s.vol, s.mounted, f s.dev, s.overrun⟩

section

variable {σ τ : Type} {a : Ata σ} {b : Ata τ} {f : σ → τ}

/-- The volume over another device is the same. -/
@[simp] theorem Fat16.map_vol (s : Fat16 σ) : (s.map f).vol = s.vol := rfl

/-- The volume over another device is mounted when it was. -/
@[simp] theorem Fat16.map_mounted (s : Fat16 σ) : (s.map f).mounted = s.mounted := rfl

/-- The device of the mapped state is the mapped device. -/
@[simp] theorem Fat16.map_dev (s : Fat16 σ) : (s.map f).dev = f s.dev := rfl

/-- The record of an overrun is the same over another device. -/
@[simp] theorem Fat16.map_overrun (s : Fat16 σ) : (s.map f).overrun = s.overrun := rfl

/-- A state over a mapped device is a mapped state. -/
theorem Fat16.mk_map (f : σ → τ) (vol : Volume) (mounted : Bool) (d : σ) (overrun : Bool) :
    (⟨vol, mounted, f d, overrun⟩ : Fat16 τ) = (⟨vol, mounted, d, overrun⟩ : Fat16 σ).map f := rfl

namespace DeviceMap

/-! ### Formatting and mounting -/

/-- Writing one sector again and again. -/
theorem writeSectors (h : DeviceMap a b f) (base : U32) (sector : Sector) (turns : ℕ) (i : U32)
    (d : σ) : Fs.writeSectors b base sector turns i (f d) =
      Prod.map id f (Fs.writeSectors a base sector turns i d) := by
  induction turns generalizing i d with
  | zero => rfl
  | succ turns ih =>
    simp only [Fs.writeSectors, h.writeSector, Prod.map_fst, Prod.map_snd, id_eq, ih]
    split_ifs <;> rfl

/-- Zeroing the copies of the FAT. -/
theorem formatFats (h : DeviceMap a b f) (fatStart : U32) (turns : ℕ) (copy : U32) (d : σ) :
    Fs.formatFats b fatStart turns copy (f d) =
      Prod.map id f (Fs.formatFats a fatStart turns copy d) := by
  induction turns generalizing copy d with
  | zero => rfl
  | succ turns ih =>
    simp only [Fs.formatFats, h.writeSector, h.writeSectors, Prod.map_fst, Prod.map_snd, id_eq, ih]
    split_ifs <;> rfl

/-- `fat16_format` over both devices. -/
theorem fat16Format (h : DeviceMap a b f) (p count : U32) (d : σ) :
    Fs.fat16Format b p count (f d) = Prod.map id f (Fs.fat16Format a p count d) := by
  simp only [Fs.fat16Format, h.writeSector, h.formatFats, h.writeSectors, Prod.map_fst,
    Prod.map_snd, id_eq]
  split_ifs <;> rfl

/-- `fat16_mount` over both devices. -/
theorem fat16Mount (h : DeviceMap a b f) (p : U32) (s : Fat16 σ) :
    Fs.fat16Mount b p (s.map f) = Prod.map id (Fat16.map f) (Fs.fat16Mount a p s) := by
  simp only [Fs.fat16Mount, Fat16.map_dev, Fat16.map_vol, h.readSector, Prod.map_fst, Prod.map_snd,
    id_eq]
  split_ifs <;> rfl

/-! ### The FAT -/

/-- `fat_read_entry` over both devices. -/
theorem fatReadEntry (h : DeviceMap a b f) (cluster : U32) (s : Fat16 σ) :
    Fs.fatReadEntry b cluster (s.map f) =
      Prod.map id (Fat16.map f) (Fs.fatReadEntry a cluster s) := by
  simp only [Fs.fatReadEntry, Fat16.map_dev, Fat16.map_vol, h.readSector]
  rfl

/-- The loop of `fat_write_entry` over both devices. -/
theorem writeCopies (h : DeviceMap a b f) (v : Volume) (cluster : U32) (value : U16) (turns : ℕ)
    (copy : U32) (d : σ) : Fs.writeCopies b v cluster value turns copy (f d) =
      f (Fs.writeCopies a v cluster value turns copy d) := by
  induction turns generalizing copy d with
  | zero => rfl
  | succ turns ih =>
    simp only [Fs.writeCopies, h.readSector, h.writeSector, Prod.map_fst, Prod.map_snd, id_eq, ih]

/-- `fat_write_entry` over both devices. -/
theorem fatWriteEntry (h : DeviceMap a b f) (cluster : U32) (value : U16) (s : Fat16 σ) :
    Fs.fatWriteEntry b cluster value (s.map f) = (Fs.fatWriteEntry a cluster value s).map f := by
  simp only [Fs.fatWriteEntry, Fat16.map_dev, Fat16.map_vol, h.writeCopies]
  rfl

/-- The loop of `fat_alloc_cluster` over both devices. -/
theorem allocClusterFrom (h : DeviceMap a b f) (turns : ℕ) (c : U32) (s : Fat16 σ) :
    Fs.allocClusterFrom b turns c (s.map f) =
      Prod.map id (Fat16.map f) (Fs.allocClusterFrom a turns c s) := by
  induction turns generalizing c s with
  | zero => rfl
  | succ turns ih =>
    simp only [Fs.allocClusterFrom, Fat16.map_vol, h.fatReadEntry, h.fatWriteEntry, Prod.map_fst,
      Prod.map_snd, id_eq, ih]
    split_ifs <;> rfl

/-- `fat_alloc_cluster` over both devices. -/
theorem fatAllocCluster (h : DeviceMap a b f) (s : Fat16 σ) :
    Fs.fatAllocCluster b (s.map f) = Prod.map id (Fat16.map f) (Fs.fatAllocCluster a s) :=
  h.allocClusterFrom _ _ s

/-! ### Making directories and files -/

/-- The search for a slot over both devices. -/
theorem writeEntryInSectors (h : DeviceMap a b f) (base : U32) (entry : DirEntry) (turns : ℕ)
    (i : U32) (d : σ) : Fs.writeEntryInSectors b base entry turns i (f d) =
      Prod.map id f (Fs.writeEntryInSectors a base entry turns i d) := by
  induction turns generalizing i d with
  | zero => rfl
  | succ turns ih =>
    simp only [Fs.writeEntryInSectors, h.readSector, Prod.map_fst, Prod.map_snd, id_eq]
    split_ifs
    · cases freeSlot (a.readSector (base + i) d).1.2 with
      | none => exact ih _ _
      | some slot => exact h.writeSector ..
    · rfl

/-- A new entry of the root directory over both devices. -/
theorem writeEntryInRoot (h : DeviceMap a b f) (entry : DirEntry) (s : Fat16 σ) :
    Fs.writeEntryInRoot b entry (s.map f) =
      Prod.map id (Fat16.map f) (Fs.writeEntryInRoot a entry s) := by
  simp only [Fs.writeEntryInRoot, Fat16.map_dev, Fat16.map_vol, h.writeEntryInSectors]
  rfl

/-- A new entry of a subdirectory over both devices. -/
theorem writeEntryInDirCluster (h : DeviceMap a b f) (dirCluster : U32) (entry : DirEntry)
    (s : Fat16 σ) : Fs.writeEntryInDirCluster b dirCluster entry (s.map f) =
      Prod.map id (Fat16.map f) (Fs.writeEntryInDirCluster a dirCluster entry s) := by
  simp only [Fs.writeEntryInDirCluster, Fat16.map_dev, Fat16.map_vol, h.writeEntryInSectors]
  rfl

/-- `fat16_mkdir_root` over both devices. -/
theorem fat16MkdirRoot (h : DeviceMap a b f) (name ext : List U8) (s : Fat16 σ) :
    Fs.fat16MkdirRoot b name ext (s.map f) =
      Prod.map id (Fat16.map f) (Fs.fat16MkdirRoot a name ext s) := by
  simp only [Fs.fat16MkdirRoot, Fat16.map_mounted, h.fatAllocCluster, Fat16.map_vol, Fat16.map_dev,
    h.writeSector, h.writeSectors, Prod.map_fst, Prod.map_snd, id_eq, Fat16.map_mounted,
    Fat16.map_overrun, Fat16.mk_map f, h.writeEntryInRoot]
  split_ifs <;> rfl

/-- The loop over the sectors of a cluster over both devices. -/
theorem writeClusterData (h : DeviceMap a b f) (data : U32 → U8) (base offset chunk : U32)
    (turns : ℕ) (i written : U32) (d : σ) :
    Fs.writeClusterData b data base offset chunk turns i written (f d) =
      Prod.map id f (Fs.writeClusterData a data base offset chunk turns i written d) := by
  induction turns generalizing i written d with
  | zero => rfl
  | succ turns ih =>
    simp only [Fs.writeClusterData, h.writeSector, Prod.map_fst, Prod.map_snd, id_eq, ih]
    split_ifs <;> rfl

/-- The loop over the clusters of a new file over both devices. -/
theorem writeClusters (h : DeviceMap a b f) (data : U32 → U8) (turns : ℕ)
    (cluster offset remaining : U32) (s : Fat16 σ) :
    Fs.writeClusters b data turns cluster offset remaining (s.map f) =
      (Fs.writeClusters a data turns cluster offset remaining s).map
        (Prod.map id (Fat16.map f)) := by
  induction turns generalizing cluster offset remaining s with
  | zero => rfl
  | succ turns ih =>
    simp only [Fs.writeClusters, Fat16.map_vol, Fat16.map_dev, h.writeClusterData, Prod.map_fst,
      Prod.map_snd, id_eq, Fat16.map_mounted, Fat16.map_overrun, Fat16.mk_map f, h.fatWriteEntry,
      h.fatAllocCluster, ih]
    split_ifs <;> rfl

/-- Storing the data of a file over both devices. -/
theorem storeFile (h : DeviceMap a b f) (data : U32 → U8) (size : U32) (s : Fat16 σ) :
    Fs.storeFile b data size (s.map f) =
      (Fs.storeFile a data size s).map (Prod.map id (Fat16.map f)) := by
  simp only [Fs.storeFile, h.fatAllocCluster, Prod.map_fst, Prod.map_snd, id_eq, writeFileData,
    h.writeClusters, Option.map_map]
  split_ifs
  · rfl
  · rw [Option.map_map]
    refine Option.map_congr fun w _ => ?_
    simp only [Function.comp_apply, Prod.map_fst, Prod.map_snd, id_eq]
    split_ifs <;> rfl
  · rfl

/-- `fat16_create_file_root` over both devices. -/
theorem fat16CreateFileRoot (h : DeviceMap a b f) (name ext : List U8) (data : U32 → U8)
    (size : U32) (s : Fat16 σ) : Fs.fat16CreateFileRoot b name ext data size (s.map f) =
      (Fs.fat16CreateFileRoot a name ext data size s).map (Prod.map id (Fat16.map f)) := by
  simp only [Fs.fat16CreateFileRoot, Fat16.map_mounted, h.storeFile, Option.map_map]
  split_ifs
  · rw [Option.map_map]
    refine Option.map_congr fun r _ => ?_
    rcases r with ⟨_ | first, r⟩
    · rfl
    · exact h.writeEntryInRoot _ _
  · rfl

/-- `fat16_create_file_in_dir` over both devices. -/
theorem fat16CreateFileInDir (h : DeviceMap a b f) (dirCluster : U32) (name ext : List U8)
    (data : U32 → U8) (size : U32) (s : Fat16 σ) :
    Fs.fat16CreateFileInDir b dirCluster name ext data size (s.map f) =
      (Fs.fat16CreateFileInDir a dirCluster name ext data size s).map
        (Prod.map id (Fat16.map f)) := by
  simp only [Fs.fat16CreateFileInDir, Fat16.map_mounted, h.storeFile, Option.map_map]
  split_ifs
  · rw [Option.map_map]
    refine Option.map_congr fun r _ => ?_
    rcases r with ⟨_ | first, r⟩
    · rfl
    · exact h.writeEntryInDirCluster _ _ _
  · rfl

/-- Every call that makes a file or a directory, over both devices. -/
theorem call_run (h : DeviceMap a b f) (call : Call) (s : Fat16 σ) :
    call.run b (s.map f) = (call.run a s).map (Prod.map id (Fat16.map f)) := by
  cases call with
  | mkdirRoot name ext => simp [Call.run, h.fat16MkdirRoot]
  | createFileRoot name ext data size =>
    simp only [Call.run, h.fat16CreateFileRoot, Option.map_map]
    rfl
  | createFileInDir dirCluster name ext data size =>
    simp only [Call.run, h.fat16CreateFileInDir, Option.map_map]
    rfl

/-! ### Listing, lookup and reading -/

/-- The loop of the listing over both devices. -/
theorem listDirSectors (h : DeviceMap a b f) (startLba : U32) (maxEntries : ℤ) (turns : ℕ) (i : U32)
    (l : Listing) (d : σ) : Fs.listDirSectors b startLba maxEntries turns i l (f d) =
      Prod.map id f (Fs.listDirSectors a startLba maxEntries turns i l d) := by
  induction turns generalizing i l d with
  | zero => rfl
  | succ turns ih =>
    simp only [Fs.listDirSectors, h.readSector, Prod.map_fst, Prod.map_snd, id_eq, ih]
    split_ifs <;> rfl

/-- `fat16_list_root` over both devices. -/
theorem fat16ListRoot (h : DeviceMap a b f) (maxEntries : ℤ) (s : Fat16 σ) :
    Fs.fat16ListRoot b maxEntries (s.map f) =
      Prod.map id (Fat16.map f) (Fs.fat16ListRoot a maxEntries s) := by
  simp only [Fs.fat16ListRoot, Fat16.map_mounted, Fat16.map_vol, Fat16.map_dev, h.listDirSectors]
  split_ifs <;> rfl

/-- `fat16_list_dir` over both devices. -/
theorem fat16ListDir (h : DeviceMap a b f) (dirCluster : U32) (maxEntries : ℤ) (s : Fat16 σ) :
    Fs.fat16ListDir b dirCluster maxEntries (s.map f) =
      Prod.map id (Fat16.map f) (Fs.fat16ListDir a dirCluster maxEntries s) := by
  simp only [Fs.fat16ListDir, Fat16.map_mounted, Fat16.map_vol, Fat16.map_dev, h.listDirSectors]
  split_ifs <;> rfl

/-- The loop of the lookup over both devices. -/
theorem findInSectors (h : DeviceMap a b f) (startLba : U32) (name ext : List U8) (turns : ℕ)
    (i : U32) (d : σ) : Fs.findInSectors b startLba name ext turns i (f d) =
      Prod.map id f (Fs.findInSectors a startLba name ext turns i d) := by
  induction turns generalizing i d with
  | zero => rfl
  | succ turns ih =>
    simp only [Fs.findInSectors, h.readSector, Prod.map_fst, Prod.map_snd, id_eq]
    split_ifs
    · cases findSlots (a.readSector (startLba + i) d).1.2 name ext 16 0 with
      | none => exact ih _ _
      | some result => rfl
    · rfl

/-- `fat16_find_in_root` over both devices. -/
theorem fat16FindInRoot (h : DeviceMap a b f) (name ext : List U8) (s : Fat16 σ) :
    Fs.fat16FindInRoot b name ext (s.map f) =
      Prod.map id (Fat16.map f) (Fs.fat16FindInRoot a name ext s) := by
  simp only [Fs.fat16FindInRoot, Fat16.map_mounted, Fat16.map_vol, Fat16.map_dev, h.findInSectors]
  split_ifs <;> rfl

/-- `fat16_find_in_dir` over both devices. -/
theorem fat16FindInDir (h : DeviceMap a b f) (dirCluster : U32) (name ext : List U8)
    (s : Fat16 σ) : Fs.fat16FindInDir b dirCluster name ext (s.map f) =
      Prod.map id (Fat16.map f) (Fs.fat16FindInDir a dirCluster name ext s) := by
  simp only [Fs.fat16FindInDir, Fat16.map_mounted, Fat16.map_vol, Fat16.map_dev, h.findInSectors]
  split_ifs <;> rfl

/-- The loop over the sectors of a cluster that is read, over both devices. -/
theorem readClusterData (h : DeviceMap a b f) (base offset chunk bufferSize : U32) (turns : ℕ)
    (i readInCluster : U32) (buffer : U32 → U8) (d : σ) :
    Fs.readClusterData b base offset chunk bufferSize turns i readInCluster buffer (f d) =
      Prod.map id f
        (Fs.readClusterData a base offset chunk bufferSize turns i readInCluster buffer d) := by
  induction turns generalizing i readInCluster buffer d with
  | zero => rfl
  | succ turns ih =>
    simp only [Fs.readClusterData, h.readSector, Prod.map_fst, Prod.map_snd, id_eq, ih]
    split_ifs <;> rfl

/-- The loop over the clusters of a file that is read, over both devices. -/
theorem readClusters (h : DeviceMap a b f) (bufferSize : U32) (turns : ℕ)
    (cluster offset remaining : U32) (buffer : U32 → U8) (s : Fat16 σ) :
    Fs.readClusters b bufferSize turns cluster offset remaining buffer (s.map f) =
      (Fs.readClusters a bufferSize turns cluster offset remaining buffer s).map
        (Prod.map id (Fat16.map f)) := by
  induction turns generalizing cluster offset remaining buffer s with
  | zero => rfl
  | succ turns ih =>
    simp only [Fs.readClusters, Fat16.map_vol, Fat16.map_dev, h.readClusterData, Prod.map_fst,
      Prod.map_snd, id_eq, Fat16.map_mounted, Fat16.map_overrun, Fat16.mk_map f, h.fatReadEntry, ih]
    split_ifs <;> rfl

/-- `fat16_read_file` over both devices. -/
theorem fat16ReadFile (h : DeviceMap a b f) (firstCluster size : U32) (buffer : U32 → U8)
    (bufferSize : U32) (s : Fat16 σ) :
    Fs.fat16ReadFile b firstCluster size buffer bufferSize (s.map f) =
      (Fs.fat16ReadFile a firstCluster size buffer bufferSize s).map
        (Prod.map id (Fat16.map f)) := by
  simp only [Fs.fat16ReadFile, Fat16.map_mounted, h.readClusters]
  split_ifs <;> rfl

/-! ### The partition table -/

/-- `mbr_read_partitions` over both devices. -/
theorem mbrReadPartitions (h : DeviceMap a b f) (d : σ) :
    Fs.mbrReadPartitions b (f d) = Prod.map id f (Fs.mbrReadPartitions a d) := by
  simp only [Fs.mbrReadPartitions, h.readSector, Prod.map_fst, Prod.map_snd, id_eq]
  split_ifs <;> rfl

/-- `mbr_write_partition` over both devices. -/
theorem mbrWritePartition (h : DeviceMap a b f) (index : ℤ) (bootable type : U8)
    (lbaStart sectorCount : U32) (d : σ) :
    Fs.mbrWritePartition b index bootable type lbaStart sectorCount (f d) =
      Prod.map id f (Fs.mbrWritePartition a index bootable type lbaStart sectorCount d) := by
  simp only [Fs.mbrWritePartition, h.readSector, h.writeSector, Prod.map_fst, Prod.map_snd, id_eq]
  split_ifs <;> rfl

end DeviceMap

end

end AlderKernel.Fs
