import AlderKernel.Fs.FailedCalls
import AlderKernel.Fs.Termination

/-!
# A disk whose transfers fail

Any transfer may fail; a failed read leaves anything in the buffer, and a failed write leaves the
disk alone. While the reads of FAT sectors succeed, a call on a volume whose FAT copies agree on
the free clusters writes only entries of free clusters.
-/

namespace AlderKernel.Fs

open Machine

/-- Which transfers of a call fail, by their number and their sector: what a failed read leaves in
the buffer, and whether a write fails. -/
structure Faults where
  read : ℕ → U32 → Option Sector
  write : ℕ → U32 → Bool

/-- A disk with such failures. Its state counts the transfers. -/
def faultyDisk (f : Faults) : Ata (Disk × ℕ) where
  readSector lba d :=
    (match f.read d.2 lba with | some left => (false, left) | none => (true, d.1 lba), d.1, d.2 + 1)
  writeSector lba sector d :=
    if f.write d.2 lba then (false, d.1, d.2 + 1)
    else (true, Function.update d.1 lba sector, d.2 + 1)

/-- The FAT entries that were not zero are as they were, in every copy. -/
def KeepsUsed (v : Volume) (d d' : Disk) : Prop :=
  ∀ copy < v.numFats.toNat, ∀ c < v.clusters, entryAt v d copy c ≠ 0#16 →
    entryAt v d' copy c = entryAt v d copy c

/-- The call ends, and has kept the entries in use. -/
def Survives (v : Volume) (d : Disk) (call : Call) (f : Faults) : Prop :=
  ∃ r, call.run (faultyDisk f) ⟨v, true, (d, 0), false⟩ = some r ∧ KeepsUsed v d r.2.dev.1

/-- No read of a FAT sector fails. -/
def Faults.FatReadsSucceed (f : Faults) (v : Volume) : Prop :=
  ∀ n, ∀ k < v.rootOffset, f.read n (v.lba k) = none

/-- A cluster that is free in the first FAT copy is free in all of them. -/
def FreeInAll (v : Volume) (d : Disk) : Prop :=
  ∀ c < v.clusters, entryAt v d 0 c = 0#16 → ∀ copy < v.numFats.toNat, entryAt v d copy c = 0#16

/-- `n` sectors from `base` on are no FAT sectors. -/
def OutsideFat (v : Volume) (base : U32) (n : ℕ) : Prop :=
  ∀ i < n, ∀ k < v.rootOffset, base + BitVec.ofNat 32 i ≠ v.lba k

/-- The FAT sectors are the same. -/
def SameFat (v : Volume) (d d' : Disk) : Prop := ∀ k < v.rootOffset, d' (v.lba k) = d (v.lba k)

section

variable {v : Volume} {d d' d'' : Disk} {base : U32} {sector : Sector} {c : ℕ}

/-- With sectors of 512 bytes every cluster up to `max_cluster` is addressable. -/
theorem addressable_of_lt (hbytes : v.bytesPerSector = 512#32) (hc : c < v.clusters) :
    v.Addressable c := by
  refine ⟨hc, .inl ?_⟩
  rw [hbytes]
  decide

/-- A disk has the same FAT as itself. -/
theorem SameFat.refl (v : Volume) (d : Disk) : SameFat v d d := fun _ _ => rfl

/-- Disks with the same FAT one after the other. -/
theorem SameFat.trans (h : SameFat v d d') (h' : SameFat v d' d'') : SameFat v d d'' :=
  fun k hk => (h' k hk).trans (h k hk)

/-- A write outside the FAT. -/
theorem sameFat_update {i n : ℕ} (hout : OutsideFat v base n) (hi : i < n) :
    SameFat v d (Function.update d (base + BitVec.ofNat 32 i) sector) :=
  fun k hk => Function.update_of_ne (hout i hi k hk).symm _ _

/-- With the same FAT the entries are the same. -/
theorem SameFat.entryAt_eq (h : SameFat v d d') {copy : ℕ} (hcopy : copy < v.numFats.toNat)
    (hc : v.Addressable c) : entryAt v d' copy c = entryAt v d copy c := by
  unfold entryAt
  rw [h _ (v.entryOffset_lt hc hcopy)]

/-- A disk keeps what it uses. -/
theorem KeepsUsed.refl (v : Volume) (d : Disk) : KeepsUsed v d d := fun _ _ _ _ _ => rfl

/-- Nothing is kept of an empty FAT. -/
theorem keepsUsed_of_free
    (h : ∀ copy < v.numFats.toNat, ∀ c < v.clusters, entryAt v d copy c = 0#16) :
    KeepsUsed v d d' := fun copy hcopy c hc hne => absurd (h copy hcopy c hc) hne

/-- Keeping the FAT keeps what it uses. -/
theorem KeepsUsed.sameFat (h : KeepsUsed v d d') (hbytes : v.bytesPerSector = 512#32)
    (hsame : SameFat v d' d'') : KeepsUsed v d d'' := by
  intro copy hcopy c hc hne
  rw [hsame.entryAt_eq hcopy (addressable_of_lt hbytes hc)]
  exact h copy hcopy c hc hne

/-- Replacing a copy of an entry leaves the entries of the other clusters. -/
theorem entryAt_update_of_ne (h : MountedVolume v) (hbytes : v.bytesPerSector = 512#32)
    {c' copy j : ℕ} {value : U16} (hc : c < v.clusters) (hc' : c' < v.clusters)
    (hcopy : copy < v.numFats.toNat) (hj : j < v.numFats.toNat) (hne : c' ≠ c) :
    entryAt v (Function.update d (v.lba (v.entryOffset j c))
      (setEntry (d (v.lba (v.entryOffset j c))) (v.entryByte c) value)) copy c' =
        entryAt v d copy c' := by
  have haddr := addressable_of_lt hbytes hc
  have haddr' := addressable_of_lt hbytes hc'
  have hroot := h.rootOffset_lt
  have hlt := v.entryOffset_lt haddr hj
  have hlt' := v.entryOffset_lt haddr' hcopy
  unfold entryAt
  by_cases hsame : v.entryOffset copy c' = v.entryOffset j c
  · have hsector : v.entrySector c = v.entrySector c' :=
      (v.sector_of_copy haddr'.entrySector_lt haddr.entrySector_lt hsame).symm
    rw [hsame, Function.update_self, setEntry_word16_of_apart (v.entryByte_apart hne.symm hsector)]
  · rw [Function.update_of_ne]
    rwa [Ne, v.lba_inj (by omega) (by omega)]

/-- Replacing a copy of the entry of a cluster that was free. -/
theorem KeepsUsed.update (hkeeps : KeepsUsed v d d') (h : MountedVolume v)
    (hbytes : v.bytesPerSector = 512#32) {j : ℕ} {value : U16} (hc : c < v.clusters)
    (hj : j < v.numFats.toNat) (hfree : ∀ copy < v.numFats.toNat, entryAt v d copy c = 0#16) :
    KeepsUsed v d (Function.update d' (v.lba (v.entryOffset j c))
      (setEntry (d' (v.lba (v.entryOffset j c))) (v.entryByte c) value)) := by
  intro copy hcopy c' hc' hused
  rw [entryAt_update_of_ne h hbytes hc hc' hcopy hj fun heq => hused (heq ▸ hfree copy hcopy)]
  exact hkeeps copy hcopy c' hc' hused

/-- The sectors of a cluster are no FAT sectors. -/
theorem MountedVolume.outsideFat_cluster (h : MountedVolume v) (hc : v.Addressable c)
    (hc2 : 2 ≤ c) :
    OutsideFat v (clusterToLba v (BitVec.ofNat 32 c)) v.sectorsPerCluster.toNat := by
  intro i hi k hk
  have hlt := h.clusterOffset_lt hc hi
  have hle : v.rootOffset ≤ v.clusterOffset c i := by
    unfold Volume.clusterOffset Volume.dataOffset
    omega
  rw [h.clusterToLba_eq hc2, Ne, v.lba_inj hlt (by omega)]
  omega

/-- The sectors of the root directory are no FAT sectors. -/
theorem MountedVolume.outsideFat_root (h : MountedVolume v) :
    OutsideFat v v.rootStart v.rootDirSectors.toNat := by
  intro i hi k hk
  have hroot := h.rootOffset_lt
  have hdir := h.rootDirSectors_bound
  rw [h.rootStart_lba, v.lba_add, Ne, v.lba_inj (by omega) (by omega)]
  omega

end

/-! ### Loops over sectors -/

section

variable {v : Volume} {f : Faults} {base offset chunk finished : U32} {sector : Sector}
  {data : U32 → U8} {turns i n : ℕ} {d : Disk × ℕ}

/-- What a write can do. -/
theorem writeSector_cases (f : Faults) (lba : U32) (sector : Sector) (d : Disk × ℕ) :
    (faultyDisk f).writeSector lba sector d = (false, d.1, d.2 + 1) ∨
      (faultyDisk f).writeSector lba sector d =
      (true, Function.update d.1 lba sector, d.2 + 1) := by
  show (if f.write d.2 lba then _ else _) = _ ∨ (if f.write d.2 lba then _ else _) = _
  split_ifs
  · exact .inl rfl
  · exact .inr rfl

/-- A write outside the FAT. -/
theorem sameFat_writeSector (hout : OutsideFat v base n) (hi : i < n) :
    SameFat v d.1 ((faultyDisk f).writeSector (base + BitVec.ofNat 32 i) sector d).2.1 := by
  rcases writeSector_cases f (base + BitVec.ofNat 32 i) sector d with heq | heq
  · rw [heq]
    exact .refl v d.1
  · rw [heq]
    exact sameFat_update hout hi

/-- A write of the first sector. -/
theorem sameFat_writeFirst (hout : OutsideFat v base n) (hn : 0 < n) :
    SameFat v d.1 ((faultyDisk f).writeSector base sector d).2.1 := by
  have hfirst :
      SameFat v d.1 ((faultyDisk f).writeSector (base + BitVec.ofNat 32 0) sector d).2.1 :=
    sameFat_writeSector hout hn
  rwa [BitVec.add_zero] at hfirst

/-- Writing sectors outside of the FAT keeps it. -/
theorem sameFat_writeSectors (hout : OutsideFat v base n) (hi : i + turns ≤ n) :
    SameFat v d.1 (writeSectors (faultyDisk f) base sector turns (BitVec.ofNat 32 i) d).2.1 := by
  induction turns generalizing i d with
  | zero => exact .refl v d.1
  | succ turns ih =>
    have hfirst :
        SameFat v d.1 ((faultyDisk f).writeSector (base + BitVec.ofNat 32 i) sector d).2.1 :=
      sameFat_writeSector hout (by omega)
    unfold writeSectors
    dsimp only
    split_ifs
    · rw [← BitVec.ofNat_add]
      exact hfirst.trans (ih (by omega))
    · exact hfirst

/-- Writing data outside of the FAT keeps it. -/
theorem sameFat_writeClusterData (hout : OutsideFat v base n) (hi : i + turns ≤ n) :
    SameFat v d.1 (writeClusterData (faultyDisk f) data base offset chunk turns (BitVec.ofNat 32 i)
      finished d).2.1 := by
  induction turns generalizing i finished d with
  | zero => exact .refl v d.1
  | succ turns ih =>
    have hfirst : SameFat v d.1 ((faultyDisk f).writeSector (base + BitVec.ofNat 32 i)
      (fileSector data offset finished chunk) d).2.1 := sameFat_writeSector hout (by omega)
    unfold writeClusterData
    dsimp only
    split_ifs
    · rw [← BitVec.ofNat_add]
      exact hfirst.trans (ih (by omega))
    · exact hfirst

/-- A directory entry is written as on a disk without failures, or not at all. -/
theorem writeEntryInSectors_faulty (f : Faults) (base : U32) (entry : DirEntry) (turns i : ℕ)
    (d : Disk × ℕ) :
    (writeEntryInSectors (faultyDisk f) base entry turns (BitVec.ofNat 32 i) d).2.1 = d.1 ∨
      (writeEntryInSectors (faultyDisk f) base entry turns (BitVec.ofNat 32 i) d).2.1 =
        (writeEntryInSectors disk base entry turns (BitVec.ofNat 32 i) d.1).2 := by
  induction turns generalizing i d with
  | zero => exact .inl rfl
  | succ turns ih =>
    rw [writeEntryInSectors_succ, writeEntryInSectors]
    cases hread : f.read d.2 (base + BitVec.ofNat 32 i) with
    | some left =>
      left
      simp [faultyDisk, hread]
    | none =>
      have hsector : (faultyDisk f).readSector (base + BitVec.ofNat 32 i) d =
          ((true, d.1 (base + BitVec.ofNat 32 i)), d.1, d.2 + 1) := by simp [faultyDisk, hread]
      rw [hsector]
      dsimp only
      rw [if_neg (not_not_intro rfl)]
      cases freeSlot (d.1 (base + BitVec.ofNat 32 i)) with
      | some j =>
        dsimp only
        rcases writeSector_cases f (base + BitVec.ofNat 32 i)
          ((d.1 (base + BitVec.ofNat 32 i)).paste (j * 32) entry) (d.1, d.2 + 1) with heq | heq
        · exact .inl (by rw [heq])
        · exact .inr (by rw [heq])
      | none =>
        dsimp only
        rw [← BitVec.ofNat_add]
        exact ih _ _

/-- Writing a directory entry outside the FAT. -/
theorem sameFat_writeEntry {entry : DirEntry} (hout : OutsideFat v base n) :
    SameFat v d.1 (writeEntryInSectors (faultyDisk f) base entry n 0#32 d).2.1 := by
  rcases writeEntryInSectors_faulty f base entry n 0 d with heq | heq
  · exact fun k _ => congrFun heq (v.lba k)
  · intro k hk
    refine (congrFun heq (v.lba k)).trans ?_
    rcases writeEntryInSectors_cases d.1 base entry n 0 with ⟨hfail, -⟩ | ⟨j, -, hj, -, -, hput⟩
    · rw [hfail]
    · rw [hput]
      exact Function.update_of_ne (hout _ (by omega) k hk).symm _ _

end

/-! ### Calls whose reads of the FAT succeed -/

section

variable {v : Volume} {f : Faults} {d₀ : Disk} {data : U32 → U8} {offset remaining : U32}
  {turns copy c : ℕ} {value : U16} {s : Fat16 (Disk × ℕ)}

/-- A read of a FAT sector. -/
theorem Faults.FatReadsSucceed.readSector (hreads : f.FatReadsSucceed v) {k : ℕ}
    (hk : k < v.rootOffset) (d : Disk × ℕ) :
    (faultyDisk f).readSector (v.lba k) d = ((true, d.1 (v.lba k)), d.1, d.2 + 1) := by
  simp [faultyDisk, hreads d.2 k hk]

/-- `fat_write_entry` for a cluster that was free. -/
theorem KeepsUsed.writeCopies {d : Disk × ℕ} (hkeeps : KeepsUsed v d₀ d.1) (h : MountedVolume v)
    (hbytes : v.bytesPerSector = 512#32) (hreads : f.FatReadsSucceed v) (hc : c < v.clusters)
    (hfree : ∀ copy < v.numFats.toNat, entryAt v d₀ copy c = 0#16)
    (hcopy : copy + turns ≤ v.numFats.toNat) :
    KeepsUsed v d₀ (writeCopies (faultyDisk f) v (BitVec.ofNat 32 c) value turns
      (BitVec.ofNat 32 copy) d).1 := by
  induction turns generalizing copy d with
  | zero => exact hkeeps
  | succ turns ih =>
    have hread := hreads.readSector (v.entryOffset_lt (addressable_of_lt hbytes hc)
      (by omega : copy < v.numFats.toNat)) d
    unfold Fs.writeCopies
    dsimp only
    rw [h.copyLba_eq hc, hread, h.offsetInSector_eq hc, ← BitVec.ofNat_add]
    refine ih ?_ (by omega)
    dsimp only
    rcases writeSector_cases f (v.lba (v.entryOffset copy c))
      (setEntry (d.1 (v.lba (v.entryOffset copy c))) (v.entryByte c) value) (d.1, d.2 + 1)
      with heq | heq
    · rw [heq]
      exact hkeeps
    · rw [heq]
      exact hkeeps.update h hbytes hc (by omega) hfree

/-- The cluster was free before the call, in every FAT copy. -/
structure WasFree (v : Volume) (d₀ : Disk) (c : ℕ) : Prop where
  two_le : 2 ≤ c
  lt : c < v.clusters
  free : ∀ copy < v.numFats.toNat, entryAt v d₀ copy c = 0#16

/-- What a call needs of its volume, of the FAT before it and of the pattern of failures. -/
structure ReliableFat (f : Faults) (v : Volume) (d₀ : Disk) : Prop where
  mounted : MountedVolume v
  bytes : v.bytesPerSector = 512#32
  reads : f.FatReadsSucceed v
  fats : 0 < v.numFats.toNat
  agree : FreeInAll v d₀

/-- A state in which the entries that were in use before the call are as they were. -/
structure Keeps (v : Volume) (d₀ : Disk) (s : Fat16 (Disk × ℕ)) : Prop where
  vol : s.vol = v
  used : KeepsUsed v d₀ s.dev.1

namespace ReliableFat

/-- `fat_read_entry` reads the first FAT copy. -/
theorem readEntry (h : ReliableFat f v d₀) (hs : Keeps v d₀ s) (hc : c < v.clusters) :
    ∃ s', fatReadEntry (faultyDisk f) (BitVec.ofNat 32 c) s = (entryAt v s.dev.1 0 c, s') ∧
      s'.vol = v ∧ s'.dev.1 = s.dev.1 := by
  have hread := h.reads.readSector (v.entryOffset_lt (addressable_of_lt h.bytes hc) h.fats) s.dev
  have hlba := h.mounted.copyLba_eq hc 0
  rw [BitVec.zero_mul, BitVec.add_zero] at hlba
  obtain rfl := hs.vol
  refine ⟨_, Prod.ext ?_ rfl, rfl, ?_⟩
  · unfold fatReadEntry
    dsimp only
    rw [hlba, hread, h.mounted.offsetInSector_eq hc]
    rfl
  · unfold fatReadEntry
    dsimp only
    rw [hlba, hread]

/-- `fat_write_entry` for a cluster that was free. -/
theorem writeEntry (h : ReliableFat f v d₀) (hs : Keeps v d₀ s) (hc : WasFree v d₀ c) :
    Keeps v d₀ (fatWriteEntry (faultyDisk f) (BitVec.ofNat 32 c) value s) := by
  obtain rfl := hs.vol
  exact ⟨rfl, hs.used.writeCopies h.mounted h.bytes h.reads hc.lt hc.free (by omega)⟩

/-- The search for a free cluster finds one that was free before the call. -/
theorem allocClusterFrom (h : ReliableFat f v d₀) {s' : Fat16 (Disk × ℕ)} {r : U32}
    (hs : Keeps v d₀ s) (hc : 2 ≤ c) (hmax : c ≤ v.clusters + 2)
    (hr : allocClusterFrom (faultyDisk f) turns (BitVec.ofNat 32 c) s = (r, s')) :
    Keeps v d₀ s' ∧ (r ≠ 0#32 → ∃ n, r = BitVec.ofNat 32 n ∧ WasFree v d₀ n) := by
  induction turns generalizing c s with
  | zero =>
    obtain ⟨rfl, rfl⟩ := Prod.mk.inj hr
    exact ⟨hs, fun hne => absurd rfl hne⟩
  | succ turns ih =>
    have hclusters := h.mounted.clusters_lt
    have hlt : BitVec.ofNat 32 c < maxCluster v ↔ c < v.clusters := by
      rw [BitVec.lt_def, h.mounted.toNat_maxCluster, BitVec.toNat_ofNat,
        Nat.mod_eq_of_lt (by omega)]
    unfold Fs.allocClusterFrom at hr
    rw [hs.vol] at hr
    by_cases hcmax : c < v.clusters
    · rw [if_pos (hlt.mpr hcmax)] at hr
      obtain ⟨s₁, hread, hvol, hdev⟩ := h.readEntry hs hcmax
      have hs₁ : Keeps v d₀ s₁ := ⟨hvol, hdev ▸ hs.used⟩
      rw [hread] at hr
      dsimp only at hr
      by_cases hzero : entryAt v s.dev.1 0 c = 0#16
      · have hwas : entryAt v d₀ 0 c = 0#16 := by
          by_contra hused
          rw [hs.used 0 h.fats c hcmax hused] at hzero
          exact hused hzero
        have hfree : WasFree v d₀ c := ⟨hc, hcmax, h.agree c hcmax hwas⟩
        rw [if_pos hzero] at hr
        obtain ⟨rfl, rfl⟩ := Prod.mk.inj hr
        exact ⟨h.writeEntry hs₁ hfree, fun _ => ⟨c, rfl, hfree⟩⟩
      · rw [if_neg hzero, ← BitVec.ofNat_add] at hr
        exact ih hs₁ (by omega) (by omega) hr
    · rw [if_neg (hlt.not.mpr hcmax)] at hr
      obtain ⟨rfl, rfl⟩ := Prod.mk.inj hr
      exact ⟨hs, fun hne => absurd rfl hne⟩

/-- A cluster that is handed out was free, and the used ones are kept. -/
theorem allocCluster (h : ReliableFat f v d₀) {s' : Fat16 (Disk × ℕ)} {r : U32}
    (hs : Keeps v d₀ s) (hr : fatAllocCluster (faultyDisk f) s = (r, s')) :
    Keeps v d₀ s' ∧ (r ≠ 0#32 → ∃ n, r = BitVec.ofNat 32 n ∧ WasFree v d₀ n) :=
  h.allocClusterFrom hs le_rfl (by omega) hr

/-- Writing outside the FAT. -/
theorem store (h : ReliableFat f v d₀) (hs : Keeps v d₀ s) {d : Disk × ℕ}
    (hsame : SameFat v s.dev.1 d.1) : Keeps v d₀ { s with dev := d } :=
  ⟨hs.vol, hs.used.sameFat h.bytes hsame⟩

/-- The sectors of a cluster that was free. -/
theorem outsideFat (h : ReliableFat f v d₀) (hc : WasFree v d₀ c) :
    OutsideFat v (clusterToLba v (BitVec.ofNat 32 c)) v.sectorsPerCluster.toNat :=
  h.mounted.outsideFat_cluster (addressable_of_lt h.bytes hc.lt) hc.two_le

/-- `write_file_data`. -/
theorem writeClusters (h : ReliableFat f v d₀) {r : Bool × Fat16 (Disk × ℕ)} (hs : Keeps v d₀ s)
    (hc : WasFree v d₀ c)
    (hr : writeClusters (faultyDisk f) data turns (BitVec.ofNat 32 c) offset remaining s = some r) :
    Keeps v d₀ r.2 := by
  induction turns generalizing c offset remaining s with
  | zero => exact absurd hr (by simp [Fs.writeClusters])
  | succ turns ih =>
    unfold Fs.writeClusters at hr
    dsimp only at hr
    have hdata : SameFat v s.dev.1 (writeClusterData (faultyDisk f) data
        (clusterToLba s.vol (BitVec.ofNat 32 c)) offset (thisChunk s.vol remaining)
        s.vol.sectorsPerCluster.toNat 0#32 0#32 s.dev).2.1 := by
      rw [hs.vol]
      exact sameFat_writeClusterData (h.outsideFat hc) (Nat.zero_add _).le
    generalize writeClusterData (faultyDisk f) data _ offset _ _ _ _ s.dev = w at hr hdata
    have hs₁ := h.store hs hdata
    generalize { s with dev := w.2 } = s₁ at hr hs₁
    generalize halloc : fatAllocCluster (faultyDisk f) s₁ = next at hr
    obtain ⟨cluster, s₂⟩ := next
    obtain ⟨hs₂, hfound⟩ := h.allocCluster hs₁ halloc
    dsimp only at hr
    split_ifs at hr with hok hlast hfull
    · obtain rfl := Option.some.inj hr
      exact h.writeEntry hs₁ hc
    · obtain rfl := Option.some.inj hr
      exact hs₂
    · obtain ⟨n, rfl, hfree⟩ := hfound hfull
      exact ih (h.writeEntry hs₂ hc) hfree hr
    · obtain rfl := Option.some.inj hr
      exact hs₁

/-- What a call stores. -/
theorem storeFile (h : ReliableFat f v d₀) {size : U32} {r : Option U32 × Fat16 (Disk × ℕ)}
    (hs : Keeps v d₀ s) (hr : storeFile (faultyDisk f) data size s = some r) : Keeps v d₀ r.2 := by
  unfold Fs.storeFile at hr
  generalize halloc : fatAllocCluster (faultyDisk f) s = next at hr
  obtain ⟨cluster, s₁⟩ := next
  obtain ⟨hs₁, hfound⟩ := h.allocCluster hs halloc
  dsimp only at hr
  split_ifs at hr with hsize hfull
  · obtain rfl := Option.some.inj hr
    exact hs₁
  · obtain ⟨w, hwrite, hend⟩ := Option.map_eq_some_iff.mp hr
    obtain ⟨n, rfl, hfree⟩ := hfound hfull
    have hs₂ := h.writeClusters hs₁ hfree hwrite
    split_ifs at hend
    · obtain rfl := hend
      exact hs₂
    · obtain rfl := hend
      exact hs₂
  · obtain rfl := Option.some.inj hr
    exact hs

/-- A directory entry outside the FAT. -/
theorem writeDirEntry (h : ReliableFat f v d₀) (entry : DirEntry) {base : U32} {n : ℕ}
    (hs : Keeps v d₀ s) (hout : OutsideFat v base n) :
    Keeps v d₀ { s with
      dev := (writeEntryInSectors (faultyDisk f) base entry n 0#32 s.dev).2 } :=
  h.store hs (sameFat_writeEntry hout)

/-- `fat16_mkdir_root` keeps the used clusters. -/
theorem mkdirRoot (h : ReliableFat f v d₀) {name ext : List U8} (hs : Keeps v d₀ s) :
    Keeps v d₀ (fat16MkdirRoot (faultyDisk f) name ext s).2 := by
  unfold fat16MkdirRoot
  generalize halloc : fatAllocCluster (faultyDisk f) s = next
  obtain ⟨cluster, s₁⟩ := next
  obtain ⟨hs₁, hfound⟩ := h.allocCluster hs halloc
  dsimp only
  by_cases hm : s.mounted
  · rw [if_neg (not_not_intro hm)]
    by_cases hfull : cluster = 0#32
    · rw [if_pos hfull]
      exact hs₁
    · obtain ⟨n, rfl, hfree⟩ := hfound hfull
      have hout := h.outsideFat hfree
      have hpos := h.mounted.sectorsPerCluster_pos
      rw [if_neg hfull]
      obtain rfl := hs₁.vol
      generalize hdots : (faultyDisk f).writeSector
        (clusterToLba s₁.vol (BitVec.ofNat 32 n)) _ s₁.dev = dots
      have hdots' : SameFat s₁.vol s₁.dev.1 dots.2.1 := hdots ▸ sameFat_writeFirst hout hpos
      generalize hzeros : writeSectors (faultyDisk f) (clusterToLba s₁.vol (BitVec.ofNat 32 n))
        .zero (s₁.vol.sectorsPerCluster.toNat - 1) 1#32 dots.2 = zeros
      have hzeros' : SameFat s₁.vol s₁.dev.1 zeros.2.1 :=
        hdots'.trans (hzeros ▸ sameFat_writeSectors hout (by omega))
      have hentry := h.writeDirEntry (setDirEntry name ext attrDirectory (BitVec.ofNat 32 n) 0#32)
        (h.store hs₁ hzeros') h.mounted.outsideFat_root
      unfold writeEntryInRoot
      split_ifs
      · exact hentry
      · exact hentry
      · exact h.store hs₁ hzeros'
      · exact h.store hs₁ hdots'
  · rw [if_pos hm]
    exact hs

end ReliableFat

/-- While the reads of the FAT succeed, and the directory of the call is outside the FAT, the call
keeps the entries that were in use. -/
theorem ReliableFat.survives {call : Call} {d : Disk} (h : ReliableFat f v d)
    (hout : OutsideFat v (call.base v) (call.sectors v)) : Survives v d call f := by
  obtain ⟨r, hr⟩ := call.ends (a := faultyDisk f) (s := ⟨v, true, (d, 0), false⟩) h.mounted
  refine ⟨r, hr, Keeps.used (s := r.2) (v := v) ?_⟩
  have hs : Keeps v d ⟨v, true, (d, 0), false⟩ := ⟨rfl, .refl v d⟩
  cases call with
  | mkdirRoot name ext =>
    obtain rfl := Option.some.inj hr
    exact h.mkdirRoot hs
  | createFileRoot name ext data size =>
    obtain ⟨created, hcreate, rfl⟩ := Option.map_eq_some_iff.mp hr
    unfold fat16CreateFileRoot at hcreate
    rw [if_neg (not_not_intro rfl)] at hcreate
    obtain ⟨stored, hstore, rfl⟩ := Option.map_eq_some_iff.mp hcreate
    have hs₁ := h.storeFile hs hstore
    rcases stored with ⟨_ | cluster, s₁⟩
    · exact hs₁
    · obtain rfl := hs₁.vol
      exact h.writeDirEntry _ hs₁ hout
  | createFileInDir dirCluster name ext data size =>
    obtain ⟨created, hcreate, rfl⟩ := Option.map_eq_some_iff.mp hr
    unfold fat16CreateFileInDir at hcreate
    rw [if_neg (not_not_intro rfl)] at hcreate
    obtain ⟨stored, hstore, rfl⟩ := Option.map_eq_some_iff.mp hcreate
    have hs₁ := h.storeFile hs hstore
    rcases stored with ⟨_ | cluster, s₁⟩
    · exact hs₁
    · obtain rfl := hs₁.vol
      exact h.writeDirEntry _ hs₁ hout

end

end AlderKernel.Fs
