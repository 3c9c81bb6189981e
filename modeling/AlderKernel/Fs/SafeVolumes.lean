import AlderKernel.Fs.Accesses
import AlderKernel.Fs.Termination

/-!
# Volumes that are safe to use

A volume with sectors of at most 512 bytes never makes the code leave a sector buffer or divide
by zero, whatever the device does. With longer sectors, which `fat16_mount` accepts, the entry of
cluster 256 lies behind the buffer.
-/

namespace AlderKernel.Fs

open Machine

/-- All accesses are safe. -/
def AllSafe (l : List Access) : Prop := ∀ x ∈ l, x.Safe

/-- Whatever the contents of the device, and whichever of its transfers fail, all accesses of all
sequences of calls are safe. -/
def Volume.SafeToUse (v : Volume) : Prop :=
  ∀ (σ : Type) (a : Ata σ) (d : σ) (overrun : Bool) (ops : List Operation),
    AllSafe (sequenceAccesses a ops ⟨v, true, d, overrun⟩)

/-- The sectors of the volume fit the buffers. -/
structure Volume.Fits (v : Volume) : Prop where
  pos : v.bytesPerSector ≠ 0#32
  le : v.bytesPerSector.toNat ≤ 512

section

variable {l l' : List Access} {x : Access}

/-- Without accesses all are safe. -/
@[simp] theorem allSafe_nil : AllSafe [] := fun _ h => absurd h List.not_mem_nil

/-- Accesses are safe when both parts are. -/
@[simp] theorem allSafe_append : AllSafe (l ++ l') ↔ AllSafe l ∧ AllSafe l' :=
  List.forall_mem_append

/-- Accesses are safe when the first one and the others are. -/
@[simp] theorem allSafe_cons : AllSafe (x :: l) ↔ x.Safe ∧ AllSafe l := List.forall_mem_cons

/-- Indices that end inside the buffer. -/
theorem allSafe_indices {off n : ℕ} (h : off + n ≤ 512) : AllSafe (indices off n) := by
  intro x hx
  obtain ⟨i, hi, rfl⟩ := List.mem_map.mp hx
  have hlt := List.mem_range.mp hi
  show off + i < 512
  omega

/-- Zeroing a sector stays inside it. -/
theorem allSafe_zeroSector : AllSafe zeroSectorAccesses := allSafe_indices (by omega)

/-- The fields of a slot lie in its sector. -/
theorem allSafe_slot {i : ℕ} (h : i < 16) : AllSafe (slotAccesses i) := allSafe_indices (by omega)

/-- The tests of the slots of a sector stay inside it. -/
theorem allSafe_slotTests {n : ℕ} (h : n ≤ 16) : AllSafe (slotTests n) := by
  intro x hx
  obtain ⟨i, hi, rfl⟩ := List.mem_map.mp hx
  have hlt := List.mem_range.mp hi
  show i * 32 < 512
  omega

/-- A copy of a part of a sector. -/
theorem allSafe_copy {chunk finished : U32} :
    AllSafe (indices 0 (copyLen chunk finished).toNat) := by
  apply allSafe_indices
  unfold copyLen
  split_ifs <;> bv_omega

end

section

variable {v : Volume} {cluster : U32}

/-- The place of an entry is computed without a division by zero. -/
theorem Volume.Fits.place (h : v.Fits) : AllSafe (placeAccesses v) := by
  simp [placeAccesses, Access.Safe, h.pos]

/-- An entry does not reach behind the end of a sector: its offset is even, or the sector is
shorter than the buffer. -/
theorem Volume.Fits.entry (h : v.Fits) : AllSafe (entryAccesses v cluster) := by
  have hpos : 0 < v.bytesPerSector.toNat := by
    have hne := h.pos
    bv_omega
  have hle := h.le
  have hlt : (offsetInSector v cluster).toNat + 1 < 512 := by
    unfold offsetInSector
    rw [BitVec.toNat_umod, BitVec.toNat_mul]
    have hmod := Nat.mod_lt (cluster.toNat * (2#32).toNat % 2 ^ 32) hpos
    rcases Nat.lt_or_ge v.bytesPerSector.toNat 512 with hlt | hge
    · omega
    · obtain heq : v.bytesPerSector.toNat = 512 := by omega
      rw [heq]
      show cluster.toNat * 2 % 2 ^ 32 % 512 + 1 < 512
      omega
  simp only [entryAccesses, allSafe_cons, allSafe_nil, and_true, Access.Safe]
  omega

/-- `fat_read_entry` is safe. -/
theorem Volume.Fits.readEntry (h : v.Fits) : AllSafe (fatReadEntryAccesses v cluster) :=
  allSafe_append.mpr ⟨h.place, h.entry⟩

/-- `fat_write_entry` is safe. -/
theorem Volume.Fits.writeEntry (h : v.Fits) : AllSafe (fatWriteEntryAccesses v cluster) := by
  refine allSafe_append.mpr ⟨h.place, fun x hx => ?_⟩
  obtain ⟨l, hl, hx⟩ := List.mem_flatten.mp hx
  obtain rfl := List.eq_of_mem_replicate hl
  exact h.entry x hx

end

/-! ### The functions of the module -/

section

variable {σ : Type} {a : Ata σ} {base offset chunk bufferSize finished : U32} {turns i : ℕ}
  {r : U32} {d : σ} {data buffer : U32 → U8} {s s' : Fat16 σ} {name ext : List U8} {sector : Sector}

/-- The loop of `fat_alloc_cluster` is safe. -/
theorem allSafe_allocClusterFrom (h : s.vol.Fits) :
    AllSafe (allocClusterAccessesFrom a turns r s) := by
  induction turns generalizing r s with
  | zero => exact allSafe_nil
  | succ turns ih =>
    unfold allocClusterAccessesFrom
    split_ifs
    · refine allSafe_append.mpr ⟨h.readEntry, ?_⟩
      split_ifs
      · exact h.writeEntry
      · apply ih
        exact h
    · exact allSafe_nil

/-- `fat_alloc_cluster` is safe. -/
theorem allSafe_fatAllocCluster (h : s.vol.Fits) : AllSafe (fatAllocClusterAccesses a s) :=
  allSafe_cons.mpr ⟨by simp [Access.Safe], allSafe_allocClusterFrom h⟩

/-- `fat_alloc_cluster` keeps the volume one that fits. -/
theorem fatAllocCluster_fits (h : s.vol.Fits) : (fatAllocCluster a s).2.vol.Fits := by
  have hvol : (fatAllocCluster a s).2.vol = s.vol := (fatAllocCluster_follows rfl).vol
  rwa [hvol]

/-- The search for a slot is safe. -/
theorem allSafe_writeEntry : AllSafe (writeEntryAccesses a base turns r d) := by
  induction turns generalizing r d with
  | zero => exact allSafe_nil
  | succ turns ih =>
    unfold writeEntryAccesses
    dsimp only
    split_ifs
    · cases hfree : freeSlot (a.readSector (base + r) d).1.2 with
      | some i =>
        have hi := List.mem_range.mp (List.mem_of_find?_eq_some hfree)
        exact allSafe_append.mpr ⟨allSafe_slotTests (by omega), allSafe_slot hi⟩
      | none => exact allSafe_append.mpr ⟨allSafe_slotTests le_rfl, ih⟩
    · exact allSafe_nil

/-- Writing the data of a cluster is safe. -/
theorem allSafe_writeCluster :
    AllSafe (writeClusterAccesses a data base offset chunk turns r finished d) := by
  induction turns generalizing r finished d with
  | zero => exact allSafe_nil
  | succ turns ih =>
    unfold writeClusterAccesses
    refine allSafe_append.mpr ⟨allSafe_append.mpr ⟨allSafe_zeroSector, ?_⟩, ?_⟩
    · split_ifs
      · exact allSafe_copy
      · exact allSafe_nil
    · split_ifs
      · exact ih
      · exact allSafe_nil

/-- Writing the clusters of a file is safe. -/
theorem allSafe_writeClusters {remaining : U32} (h : s.vol.Fits) :
    AllSafe (writeClustersAccesses a data turns r offset remaining s) := by
  induction turns generalizing r offset remaining s with
  | zero => exact allSafe_nil
  | succ turns ih =>
    unfold writeClustersAccesses
    refine allSafe_append.mpr ⟨allSafe_writeCluster, ?_⟩
    dsimp only
    split_ifs
    · exact h.writeEntry
    · exact allSafe_append.mpr ⟨allSafe_fatAllocCluster h, allSafe_nil⟩
    · refine allSafe_append.mpr ⟨allSafe_fatAllocCluster h, allSafe_append.mpr ⟨h.writeEntry, ?_⟩⟩
      apply ih
      exact fatAllocCluster_fits h
    · exact allSafe_nil

/-- Listing the slots of a sector is safe. -/
theorem allSafe_listSlots (h : i + turns ≤ 16) : AllSafe (listSlotsAccesses sector turns i) := by
  induction turns generalizing i with
  | zero => exact allSafe_nil
  | succ turns ih =>
    unfold listSlotsAccesses
    refine allSafe_append.mpr ⟨allSafe_slot (by omega), ?_⟩
    split_ifs
    · exact allSafe_nil
    · exact ih (by omega)

/-- Looking up the slots of a sector is safe. -/
theorem allSafe_findSlots (h : i + turns ≤ 16) :
    AllSafe (findSlotsAccesses sector name ext turns i) := by
  induction turns generalizing i with
  | zero => exact allSafe_nil
  | succ turns ih =>
    unfold findSlotsAccesses
    refine allSafe_append.mpr ⟨allSafe_slot (by omega), ?_⟩
    split_ifs
    · exact allSafe_nil
    · exact allSafe_nil
    · exact ih (by omega)

/-- Listing the sectors of a directory is safe. -/
theorem allSafe_listDirSectors {maxEntries : ℤ} {l : Listing} :
    AllSafe (listDirSectorsAccesses a base maxEntries turns r l d) := by
  induction turns generalizing r l d with
  | zero => exact allSafe_nil
  | succ turns ih =>
    unfold listDirSectorsAccesses
    dsimp only
    split_ifs
    · exact allSafe_append.mpr ⟨allSafe_listSlots (by omega), allSafe_nil⟩
    · exact allSafe_append.mpr ⟨allSafe_listSlots (by omega), ih⟩
    · exact allSafe_nil

/-- Looking up the sectors of a directory is safe. -/
theorem allSafe_findInSectors : AllSafe (findInSectorsAccesses a base name ext turns r d) := by
  induction turns generalizing r d with
  | zero => exact allSafe_nil
  | succ turns ih =>
    unfold findInSectorsAccesses
    dsimp only
    split_ifs
    · refine allSafe_append.mpr ⟨allSafe_findSlots (by omega), ?_⟩
      cases findSlots (a.readSector (base + r) d).1.2 name ext 16 0 with
      | some found => exact allSafe_nil
      | none => exact ih
    · exact allSafe_nil

/-- Reading the data of a cluster is safe. -/
theorem allSafe_readCluster : AllSafe (readClusterAccesses a base chunk turns r finished d) := by
  induction turns generalizing r finished d with
  | zero => exact allSafe_nil
  | succ turns ih =>
    unfold readClusterAccesses
    dsimp only
    split_ifs
    · exact allSafe_append.mpr ⟨allSafe_copy, ih⟩
    · exact allSafe_nil
    · exact allSafe_nil

/-- Reading the clusters of a file is safe. -/
theorem allSafe_readClusters {remaining : U32} (h : s.vol.Fits) :
    AllSafe (readClustersAccesses a bufferSize turns r offset remaining buffer s) := by
  induction turns generalizing r offset remaining buffer s with
  | zero => exact allSafe_nil
  | succ turns ih =>
    unfold readClustersAccesses
    dsimp only
    split_ifs
    · exact allSafe_append.mpr ⟨allSafe_readCluster, allSafe_nil⟩
    · exact allSafe_append.mpr ⟨allSafe_readCluster, allSafe_append.mpr ⟨h.readEntry, allSafe_nil⟩⟩
    · refine allSafe_append.mpr ⟨allSafe_readCluster, allSafe_append.mpr ⟨h.readEntry, ?_⟩⟩
      apply ih
      exact h
    · exact allSafe_append.mpr ⟨allSafe_readCluster, allSafe_nil⟩
    · exact allSafe_nil

/-! ### Calls -/

/-- `fat16_mkdir_root` is safe. -/
theorem allSafe_mkdirRoot (h : s.vol.Fits) : AllSafe (mkdirRootAccesses a s) := by
  have hdots : AllSafe (zeroSectorAccesses ++ slotAccesses 0 ++ slotAccesses 1) :=
    allSafe_append.mpr ⟨allSafe_append.mpr ⟨allSafe_zeroSector, allSafe_slot (by omega)⟩,
      allSafe_slot (by omega)⟩
  unfold mkdirRootAccesses
  by_cases hm : s.mounted
  · rw [if_neg (not_not_intro hm)]
    refine allSafe_append.mpr ⟨allSafe_fatAllocCluster h, ?_⟩
    dsimp only
    split_ifs
    · exact allSafe_nil
    · refine allSafe_append.mpr ⟨hdots, allSafe_append.mpr ⟨allSafe_zeroSector, ?_⟩⟩
      exact allSafe_writeEntry
    · exact allSafe_append.mpr ⟨hdots, allSafe_append.mpr ⟨allSafe_zeroSector, allSafe_nil⟩⟩
    · exact allSafe_append.mpr ⟨hdots, allSafe_nil⟩
  · rw [if_pos hm]
    exact allSafe_nil

/-- Storing the data of a file is safe. -/
theorem allSafe_storeFile {size : U32} (h : s.vol.Fits) :
    AllSafe (storeFileAccesses a data size s) := by
  unfold storeFileAccesses
  dsimp only
  split_ifs
  · exact allSafe_append.mpr ⟨allSafe_fatAllocCluster h, allSafe_nil⟩
  · refine allSafe_append.mpr ⟨allSafe_fatAllocCluster h, allSafe_writeClusters ?_⟩
    exact fatAllocCluster_fits h
  · exact allSafe_nil

/-- Creating a file is safe. -/
theorem allSafe_createFile {size : U32} (h : s.vol.Fits) :
    AllSafe (createFileAccesses a base turns data size s) := by
  unfold createFileAccesses
  split_ifs
  · refine allSafe_append.mpr ⟨allSafe_storeFile h, ?_⟩
    rcases storeFile a data size s with _ | ⟨_ | cluster, s₁⟩
    · exact allSafe_nil
    · exact allSafe_nil
    · exact allSafe_writeEntry
  · exact allSafe_nil

/-- All accesses of an operation on a volume that fits are safe. -/
theorem Operation.allSafe (op : Operation) (h : s.vol.Fits) : AllSafe (op.accesses a s) := by
  have hlist {base : U32} {sectors : ℕ} {maxEntries : ℤ} : AllSafe (if ¬ s.mounted then [] else
      listDirSectorsAccesses a base maxEntries sectors 0#32 ⟨0, []⟩ s.dev) := by
    split_ifs
    · exact allSafe_listDirSectors
    · exact allSafe_nil
  have hfind {base : U32} {sectors : ℕ} {name ext : List U8} : AllSafe (if ¬ s.mounted then [] else
      findInSectorsAccesses a base name ext sectors 0#32 s.dev) := by
    split_ifs
    · exact allSafe_findInSectors
    · exact allSafe_nil
  cases op with
  | make call =>
    cases call with
    | mkdirRoot name ext => exact allSafe_mkdirRoot h
    | createFileRoot name ext data size => exact allSafe_createFile h
    | createFileInDir dirCluster name ext data size => exact allSafe_createFile h
  | listRoot maxEntries => exact hlist
  | listDir dirCluster maxEntries => exact hlist
  | findInRoot name ext => exact hfind
  | findInDir dirCluster name ext => exact hfind
  | readFile firstCluster size buffer bufferSize =>
    show AllSafe (readFileAccesses a firstCluster size buffer bufferSize s)
    unfold readFileAccesses
    split_ifs
    · exact allSafe_nil
    · exact allSafe_readClusters h
    · exact allSafe_nil

/-! ### Sequences of calls -/

/-- An operation keeps the volume. -/
theorem Operation.run_vol {op : Operation} (hr : op.run a s = some s') : s'.vol = s.vol := by
  cases op with
  | make call =>
    obtain ⟨result, hcall, rfl⟩ := Option.map_eq_some_iff.mp hr
    exact Call.run_vol hcall
  | listRoot maxEntries =>
    obtain rfl := Option.some.inj hr
    unfold fat16ListRoot
    split_ifs <;> rfl
  | listDir dirCluster maxEntries =>
    obtain rfl := Option.some.inj hr
    unfold fat16ListDir
    split_ifs <;> rfl
  | findInRoot name ext =>
    obtain rfl := Option.some.inj hr
    unfold fat16FindInRoot
    split_ifs <;> rfl
  | findInDir dirCluster name ext =>
    obtain rfl := Option.some.inj hr
    unfold fat16FindInDir
    split_ifs <;> rfl
  | readFile firstCluster size buffer bufferSize =>
    obtain ⟨result, hread, rfl⟩ := Option.map_eq_some_iff.mp hr
    unfold fat16ReadFile at hread
    split_ifs at hread
    · obtain rfl := Option.some.inj hread
      rfl
    · exact readClusters_vol hread
    · obtain rfl := Option.some.inj hread
      rfl

/-- All accesses of a sequence of calls on a volume that fits are safe. -/
theorem allSafe_sequence {ops : List Operation} (h : s.vol.Fits) :
    AllSafe (sequenceAccesses a ops s) := by
  induction ops generalizing s with
  | nil => exact allSafe_nil
  | cons op ops ih =>
    refine allSafe_append.mpr ⟨op.allSafe h, ?_⟩
    cases hrun : op.run a s with
    | none => exact allSafe_nil
    | some s' =>
      apply ih
      rwa [Operation.run_vol hrun]

/-- Every operation on a mounted volume ends, so that its list of accesses is complete. -/
theorem Operation.ends (op : Operation) (h : MountedVolume s.vol) : ∃ s', op.run a s = some s' := by
  cases op with
  | make call =>
    obtain ⟨result, hrun⟩ := call.ends h
    exact ⟨_, Option.map_eq_some_iff.mpr ⟨result, hrun, rfl⟩⟩
  | readFile firstCluster size buffer bufferSize =>
    obtain ⟨result, hrun⟩ : ∃ result,
        fat16ReadFile a firstCluster size buffer bufferSize s = some result := by
      unfold fat16ReadFile
      split_ifs
      · exact ⟨_, rfl⟩
      · exact readClusters_ends h size.isLt
      · exact ⟨_, rfl⟩
    exact ⟨_, Option.map_eq_some_iff.mpr ⟨result, hrun, rfl⟩⟩
  | _ => exact ⟨_, rfl⟩

end

/-! ### Longer sectors -/

section

variable {base offset chunk bufferSize finished : U32} {turns : ℕ} {r : U32} {d : Disk}
  {buffer : U32 → U8} {s : Fat16 Disk} {v : Volume}

/-- On a disk without failures the sectors of a cluster can be read. -/
theorem readClusterData_ok :
    (readClusterData disk base offset chunk bufferSize turns r finished buffer d).1.1 = true := by
  induction turns generalizing r finished buffer d with
  | zero => rfl
  | succ turns ih =>
    unfold readClusterData
    by_cases hmore : finished < chunk
    · rw [if_pos hmore]
      exact ih
    · rw [if_neg hmore]

/-- When the chunk of a cluster does not end the file, its entry is read. -/
theorem fatReadEntryAccesses_subset {remaining : U32} {x : Access}
    (hmore : remaining - thisChunk s.vol remaining ≠ 0#32) (hx : x ∈ fatReadEntryAccesses s.vol r) :
    x ∈ readClustersAccesses disk bufferSize (turns + 1) r offset remaining buffer s := by
  have hpos : 0#32 < remaining := by
    by_contra hzero
    obtain rfl : remaining = 0#32 := by bv_omega
    exact hmore (by unfold thisChunk; split_ifs <;> bv_omega)
  unfold readClustersAccesses
  rw [if_pos hpos]
  dsimp only
  rw [if_neg (not_not_intro readClusterData_ok), if_neg hmore]
  exact List.mem_append_right _ (List.mem_append_left _ hx)

/-- So it is by `fat16_read_file`. -/
theorem readFileAccesses_subset {size : U32} {x : Access} (hm : s.mounted = true) (hr : r ≠ 0#32)
    (hmore : size - thisChunk s.vol size ≠ 0#32) (hx : x ∈ fatReadEntryAccesses s.vol r) :
    x ∈ readFileAccesses disk r size buffer bufferSize s := by
  have hsize : size ≠ 0#32 := by
    rintro rfl
    exact hmore (by unfold thisChunk; split_ifs <;> bv_omega)
  obtain ⟨turns, hturns⟩ : ∃ turns, 2 ^ 32 = turns + 1 := ⟨2 ^ 32 - 1, by omega⟩
  unfold readFileAccesses
  rw [if_neg (not_not_intro hm), if_neg (not_or.mpr ⟨hsize, hr⟩), hturns]
  exact fatReadEntryAccesses_subset hmore hx

/-- Reading a file that goes on behind cluster 256 uses the index 512. -/
theorem MountedVolume.not_safeToUse (h : MountedVolume v) (hbig : 512 < v.bytesPerSector.toNat) :
    ¬ v.SafeToUse := by
  intro hsafe
  have hbounds := h.bytesPerCluster_bounds
  have hchunk : thisChunk v (bytesPerCluster v + 1#32) = bytesPerCluster v :=
    if_neg (by bv_omega)
  have hbyte : (offsetInSector v 256#32).toNat = 512 := by
    unfold offsetInSector
    rw [BitVec.toNat_umod]
    exact Nat.mod_eq_of_lt hbig
  have hindex : Access.index 512 ∈ fatReadEntryAccesses v 256#32 := by
    simp [fatReadEntryAccesses, entryAccesses, hbyte]
  let s : Fat16 Disk := ⟨v, true, fun _ => .zero, false⟩
  have hread : Access.index 512 ∈ sequenceAccesses disk
      [.readFile 256#32 (bytesPerCluster v + 1#32) (fun _ => 0#8) 0#32] s := by
    apply List.mem_append_left
    apply readFileAccesses_subset
    · rfl
    · decide
    · show bytesPerCluster v + 1#32 - thisChunk v (bytesPerCluster v + 1#32) ≠ 0#32
      rw [hchunk]
      bv_omega
    · exact hindex
  exact absurd (hsafe _ _ _ _ _ _ hread) (by simp [Access.Safe])

end

/-- Every boot sector that `fat16_mount` accepts: the volume is safe to use, for every device and
every sequence of later calls, exactly when its sectors have at most 512 bytes. -/
theorem safeToUse_iff {σ : Type} {a : Ata σ} {partitionLba : U32} {s s' : Fat16 σ}
    (hmount : fat16Mount a partitionLba s = (true, s')) :
    s'.vol.SafeToUse ↔ (word16 (a.readSector partitionLba s.dev).1.2 11).toNat ≤ 512 := by
  obtain ⟨h, -, -, hvol⟩ := fat16Mount_success hmount
  have hbytes : s'.vol.bytesPerSector = word16 (a.readSector partitionLba s.dev).1.2 11 := by
    rw [hvol]
    rfl
  rw [← hbytes]
  constructor
  · intro hsafe
    by_contra hbig
    exact h.not_safeToUse (by omega) hsafe
  · intro hle σ a d overrun ops
    have hpos := h.bytesPerSector_pos
    have hne : s'.vol.bytesPerSector ≠ 0#32 := by
      intro hzero
      rw [hzero] at hpos
      exact absurd hpos (by decide)
    exact allSafe_sequence ⟨hne, hle⟩

/-- A boot sector with sectors of `256 * n` bytes, clusters of one sector, and nothing else. -/
def plainBootSector (n : U8) : Sector := .ofFn fun i =>
  match i with
  | 12 => n
  | 13 => 1#8
  | 510 => 0x55#8
  | 511 => 0xAA#8
  | _ => 0#8

/-- The kernel before it mounts a disk of such sectors. -/
def plainStart (n : U8) : Fat16 Disk where
  vol := ⟨0#32, 0#32, 0#32, 0#32, 0#32, 0#32, 0#32, 0#32, 0#32, 0#32, 0#32⟩
  mounted := false
  dev := fun _ => plainBootSector n
  overrun := false

/-- Sectors of 512 bytes. -/
theorem plain_safeToUse : ∃ s, fat16Mount disk 0#32 (plainStart 2#8) = (true, s) ∧
    s.vol.SafeToUse := by
  have hmount : fat16Mount disk 0#32 (plainStart 2#8) =
      (true, (fat16Mount disk 0#32 (plainStart 2#8)).2) := Prod.ext (by decide) rfl
  exact ⟨_, hmount, (safeToUse_iff hmount).mpr (by decide)⟩

/-- Sectors of 1024 bytes, which `fat16_mount` accepts as well. -/
theorem plain_not_safeToUse : ∃ s, fat16Mount disk 0#32 (plainStart 4#8) = (true, s) ∧
    ¬ s.vol.SafeToUse := by
  have hmount : fat16Mount disk 0#32 (plainStart 4#8) =
      (true, (fat16Mount disk 0#32 (plainStart 4#8)).2) := Prod.ext (by decide) rfl
  refine ⟨_, hmount, (fat16Mount_success hmount).1.not_safeToUse ?_⟩
  decide

end AlderKernel.Fs
