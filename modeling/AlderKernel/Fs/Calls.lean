import AlderKernel.Fs.ClusterData
import AlderKernel.Fs.Directory

/-!
# The calls that make files and directories

`fat16_mkdir_root`, `fat16_create_file_root` and `fat16_create_file_in_dir` as one type of
calls. Each stores something in clusters first and then writes a directory entry; a call that
fails has changed the FAT entries of clusters that were free, and of no others.
-/

namespace AlderKernel.Fs

open Machine SlotTable

/-- A call that makes a directory or a file. -/
inductive Call where
  | mkdirRoot (name ext : List U8)
  | createFileRoot (name ext : List U8) (data : U32 → U8) (size : U32)
  | createFileInDir (dirCluster : U32) (name ext : List U8) (data : U32 → U8) (size : U32)

/-- What a call reports: the code returned 0, or `fat16_mkdir_root` returned 1 with a value of
`*out_cluster`, or a function that creates a file returned 1. -/
inductive Result where
  | failed
  | directory (cluster : U32)
  | file
  deriving DecidableEq

/-- Make a call. -/
def Call.run {σ : Type} (a : Ata σ) : Call → Fat16 σ → Option (Result × Fat16 σ)
  | .mkdirRoot name ext, s =>
    let r := fat16MkdirRoot a name ext s
    some (match r.1 with | some cluster => .directory cluster | none => .failed, r.2)
  | .createFileRoot name ext data size, s =>
    (fat16CreateFileRoot a name ext data size s).map fun r =>
      (if r.1 then .file else .failed, r.2)
  | .createFileInDir dirCluster name ext data size, s =>
    (fat16CreateFileInDir a dirCluster name ext data size s).map fun r =>
      (if r.1 then .file else .failed, r.2)

/-! ### The two parts of a call -/

/-- The sectors of a new directory. -/
def directorySector (cluster : U32) (i : ℕ) : Sector := if i = 0 then dotSector cluster else .zero

/-- Allocate and fill the cluster of a new directory. -/
def storeDirectory (s : Fat16 Disk) : Option U32 × Fat16 Disk :=
  let r := fatAllocCluster disk s
  if r.1 = 0#32 then (none, r.2) else
  (some r.1, { r.2 with dev := fillCluster s.vol r.1.toNat (directorySector r.1) r.2.dev })

/-- The first part of a call: the first cluster of what is stored, where there is room. -/
def Call.store : Call → Fat16 Disk → Option (Option U32 × Fat16 Disk)
  | .mkdirRoot _ _, s => some (storeDirectory s)
  | .createFileRoot _ _ data size, s => storeFile disk data size s
  | .createFileInDir _ _ _ data size, s => storeFile disk data size s

/-- The first sector of the directory that gets the new entry. -/
def Call.base (v : Volume) : Call → U32
  | .mkdirRoot _ _ => v.rootStart
  | .createFileRoot _ _ _ _ => v.rootStart
  | .createFileInDir dirCluster _ _ _ _ => clusterToLba v dirCluster

/-- The number of sectors of that directory. -/
def Call.sectors (v : Volume) : Call → ℕ
  | .mkdirRoot _ _ => v.rootDirSectors.toNat
  | .createFileRoot _ _ _ _ => v.rootDirSectors.toNat
  | .createFileInDir _ _ _ _ _ => v.sectorsPerCluster.toNat

/-- The new entry. -/
def Call.entry : Call → U32 → DirEntry
  | .mkdirRoot name ext, cluster => setDirEntry name ext attrDirectory cluster 0#32
  | .createFileRoot name ext _ size, cluster => setDirEntry name ext attrFile cluster size
  | .createFileInDir _ name ext _ size, cluster => setDirEntry name ext attrFile cluster size

/-- What the call reports when the entry is written. -/
def Call.success : Call → U32 → Result
  | .mkdirRoot _ _, cluster => .directory cluster
  | .createFileRoot _ _ _ _, _ => .file
  | .createFileInDir _ _ _ _ _, _ => .file

/-- The second part of a call. -/
def Call.finish (call : Call) : Option U32 → Fat16 Disk → Result × Fat16 Disk
  | none, s => (.failed, s)
  | some cluster, s =>
    let w := writeEntryInSectors disk (call.base s.vol) (call.entry cluster) (call.sectors s.vol)
      0#32 s.dev
    (if w.1 then call.success cluster else .failed, { s with dev := w.2 })

section

variable {s s' : Fat16 Disk} {call : Call} {result : Result}

/-- `fat16_mkdir_root` fills the cluster with the entries '.' and '..' and zeros. -/
theorem fillCluster_directory {v : Volume} (h : MountedVolume v) (cluster : U32) (d : Disk) :
    writeSectors disk (clusterToLba v cluster) .zero (v.sectorsPerCluster.toNat - 1) 1#32
        (Function.update d (clusterToLba v cluster) (dotSector cluster)) =
      (true, fillCluster v cluster.toNat (directorySector cluster) d) := by
  obtain ⟨n, hn⟩ := Nat.exists_eq_add_of_lt h.sectorsPerCluster_pos
  unfold fillCluster
  rw [hn, show 0 + n + 1 - 1 = n by omega, show 0 + n + 1 = n + 1 by omega,
    BitVec.ofNat_toNat, BitVec.setWidth_eq]
  exact writeSectors_behind

/-- The two parts of `fat16_mkdir_root`. -/
theorem fat16MkdirRoot_disk (h : MountedVolume s.vol) (hm : s.mounted = true)
    (name ext : List U8) : fat16MkdirRoot disk name ext s =
      match storeDirectory s with
      | (none, s₁) => (none, s₁)
      | (some cluster, s₁) =>
        let w := writeEntryInRoot disk (setDirEntry name ext attrDirectory cluster 0#32) s₁
        if ¬ w.1 then (none, w.2) else (some cluster, w.2) := by
  have hvol : (fatAllocCluster disk s).2.vol = s.vol := (fatAllocCluster_follows rfl).vol
  unfold fat16MkdirRoot storeDirectory
  rw [if_neg (by rw [hm]; decide)]
  generalize fatAllocCluster disk s = r at hvol
  obtain ⟨cluster, s₁⟩ := r
  dsimp only at hvol ⊢
  by_cases hzero : cluster = 0#32
  · rw [if_pos hzero, if_pos hzero]
  · have hfill := fillCluster_directory h cluster s₁.dev
    have hdots : disk.writeSector (clusterToLba s.vol cluster) (dotSector cluster) s₁.dev =
        (true, Function.update s₁.dev (clusterToLba s.vol cluster) (dotSector cluster)) := rfl
    rw [if_neg hzero, if_neg hzero, hvol, hdots]
    dsimp only
    rw [hfill, if_neg (not_not_intro rfl), if_neg (not_not_intro rfl)]

/-- A call stores something and then writes an entry for it. -/
theorem Call.run_disk (h : MountedVolume s.vol) (hm : s.mounted = true) (call : Call) :
    call.run disk s = (call.store s).map fun r => call.finish r.1 r.2 := by
  cases call with
  | mkdirRoot name ext =>
    change some _ = some _
    congr 1
    rw [fat16MkdirRoot_disk h hm]
    rcases storeDirectory s with ⟨_ | cluster, s₁⟩
    · rfl
    · unfold finish writeEntryInRoot
      dsimp only [base, entry, sectors]
      generalize writeEntryInSectors disk _ _ _ _ _ = w
      rcases w with ⟨_ | _, d⟩
      · rfl
      · rfl
  | createFileRoot name ext data size =>
    change (fat16CreateFileRoot disk name ext data size s).map _ =
      (storeFile disk data size s).map _
    unfold fat16CreateFileRoot
    rw [if_neg (by rw [hm]; decide), Option.map_map]
    congr 1
    funext r
    rcases r with ⟨_ | cluster, s₁⟩
    · rfl
    · rfl
  | createFileInDir dirCluster name ext data size =>
    change (fat16CreateFileInDir disk dirCluster name ext data size s).map _ =
      (storeFile disk data size s).map _
    unfold fat16CreateFileInDir
    rw [if_neg (by rw [hm]; decide), Option.map_map]
    congr 1
    funext r
    rcases r with ⟨_ | cluster, s₁⟩
    · rfl
    · rfl

/-- What a call can do: find no room for what it stores, store it and find no slot for the entry, or
store it and put the entry in the first usable slot. -/
theorem Call.run_cases (h : MountedVolume s.vol) (hm : s.mounted = true)
    (hr : call.run disk s = some (result, s')) :
    ∃ stored s₁, call.store s = some (stored, s₁) ∧
      ((stored = none ∧ result = .failed ∧ s' = s₁) ∨
      (∃ cluster, stored = some cluster ∧ result = .failed ∧ s' = s₁ ∧
        ∀ i < 16 * call.sectors s₁.vol,
          slotUsable (slotAt s₁.dev (call.base s₁.vol) i) = false) ∨
      ∃ cluster i, stored = some cluster ∧ result = call.success cluster ∧
        i < 16 * call.sectors s₁.vol ∧ slotUsable (slotAt s₁.dev (call.base s₁.vol) i) = true ∧
        (∀ j < i, slotUsable (slotAt s₁.dev (call.base s₁.vol) j) = false) ∧
        s' = { s₁ with dev := putSlot s₁.dev (call.base s₁.vol) i (call.entry cluster) }) := by
  rw [call.run_disk h hm] at hr
  obtain ⟨⟨stored, s₁⟩, hstore, hfinish⟩ := Option.map_eq_some_iff.mp hr
  refine ⟨stored, s₁, hstore, ?_⟩
  cases stored with
  | none =>
    obtain ⟨rfl, rfl⟩ := Prod.mk.inj hfinish
    exact Or.inl ⟨rfl, rfl, rfl⟩
  | some cluster =>
    right
    unfold finish at hfinish
    dsimp only at hfinish
    rcases writeEntryInSectors_cases s₁.dev (call.base s₁.vol) (call.entry cluster)
      (call.sectors s₁.vol) 0
      with ⟨hfail, hused⟩ | ⟨i, -, hi, hfree, hfirst, hput⟩
    · rw [hfail] at hfinish
      obtain ⟨rfl, rfl⟩ := Prod.mk.inj hfinish
      exact Or.inl ⟨cluster, rfl, rfl, rfl, fun i hi => hused i (by omega) (by omega)⟩
    · rw [hput] at hfinish
      obtain ⟨rfl, rfl⟩ := Prod.mk.inj hfinish
      refine Or.inr ⟨cluster, i, rfl, rfl, by omega, hfree, ?_, rfl⟩
      exact fun j hj => hfirst j (by omega) hj

/-- A success is not reported as a failure. -/
theorem Call.success_ne_failed (call : Call) (cluster : U32) : call.success cluster ≠ .failed := by
  cases call <;> simp [success]

/-! ### Failing calls -/

/-- What storing a file can do: nothing for no data, find no free cluster to start at, or write the
data from the cluster it has found. -/
theorem storeFile_cases {data : U32 → U8} {size : U32} {stored : Option U32}
    (hr : storeFile disk data size s = some (stored, s')) :
    (size = 0#32 ∧ stored = some 0#32 ∧ s' = s) ∨
    (size ≠ 0#32 ∧ stored = none ∧ fatAllocCluster disk s = (0#32, s')) ∨
    size ≠ 0#32 ∧ ∃ cluster s₁ ok, fatAllocCluster disk s = (cluster, s₁) ∧ cluster ≠ 0#32 ∧
      writeFileData disk cluster data size s₁ = some (ok, s') ∧
      stored = if ok then some cluster else none := by
  unfold storeFile at hr
  generalize halloc : fatAllocCluster disk s = r at hr
  obtain ⟨cluster, s₁⟩ := r
  by_cases hsize : 0#32 < size
  · right
    have hne : size ≠ 0#32 := by bv_omega
    rw [if_pos hsize] at hr
    dsimp only at hr
    by_cases hzero : cluster = 0#32
    · rw [if_pos hzero] at hr
      obtain ⟨rfl, rfl⟩ := Prod.mk.inj (Option.some.inj hr)
      exact Or.inl ⟨hne, rfl, by rw [hzero]⟩
    · rw [if_neg hzero] at hr
      obtain ⟨⟨ok, s₂⟩, hwrite, hend⟩ := Option.map_eq_some_iff.mp hr
      refine Or.inr ⟨hne, cluster, s₁, ok, rfl, hzero, ?_⟩
      cases ok with
      | true =>
        obtain ⟨rfl, rfl⟩ := Prod.mk.inj hend
        exact ⟨hwrite, rfl⟩
      | false =>
        obtain ⟨rfl, rfl⟩ := Prod.mk.inj hend
        exact ⟨hwrite, rfl⟩
  · rw [if_neg hsize] at hr
    obtain ⟨rfl, rfl⟩ := Prod.mk.inj (Option.some.inj hr)
    exact Or.inl ⟨by bv_omega, rfl, rfl⟩

/-- What storing a directory can do: find no free cluster, or fill the one it has found. -/
theorem storeDirectory_cases {stored : Option U32} (hr : storeDirectory s = (stored, s')) :
    (stored = none ∧ fatAllocCluster disk s = (0#32, s')) ∨
    ∃ cluster s₁, fatAllocCluster disk s = (cluster, s₁) ∧ cluster ≠ 0#32 ∧ stored = some cluster ∧
      s' = { s₁ with
        dev := fillCluster s.vol cluster.toNat (directorySector cluster) s₁.dev } := by
  unfold storeDirectory at hr
  generalize halloc : fatAllocCluster disk s = r at hr
  obtain ⟨cluster, s₁⟩ := r
  dsimp only at hr
  split_ifs at hr with hzero
  · obtain ⟨rfl, rfl⟩ := Prod.mk.inj hr
    exact Or.inl ⟨rfl, by rw [hzero]⟩
  · obtain ⟨rfl, rfl⟩ := Prod.mk.inj hr
    exact Or.inr ⟨cluster, s₁, rfl, hzero, rfl, rfl⟩

/-- Storing the data of a call keeps the fields of the volume and the mount. -/
theorem Call.store_follows {stored : Option U32} (hr : call.store s = some (stored, s')) :
    Follows s s' := by
  have hfile : ∀ data size, storeFile disk data size s = some (stored, s') → Follows s s' := by
    intro data size hr
    rcases storeFile_cases hr with ⟨-, -, rfl⟩ | ⟨-, -, halloc⟩ | ⟨-, c, s₁, ok, halloc, -, hw, -⟩
    · exact .refl _
    · exact fatAllocCluster_follows halloc
    · exact (fatAllocCluster_follows halloc).trans (writeClusters_follows hw)
  cases call with
  | mkdirRoot name ext =>
    rcases storeDirectory_cases (Option.some.inj hr) with ⟨-, halloc⟩ | ⟨c, s₁, halloc, -, -, rfl⟩
    · exact fatAllocCluster_follows halloc
    · have hfollows := fatAllocCluster_follows halloc
      exact ⟨hfollows.vol, hfollows.mounted, hfollows.overrun⟩
  | createFileRoot name ext data size => exact hfile data size hr
  | createFileInDir dirCluster name ext data size => exact hfile data size hr

/-! ### Failing calls -/

/-- Storing a directory changes only free clusters. -/
theorem storeDirectory_changesOnly {S : Set (Option ℕ)} {stored : Option U32}
    (h : MountedVolume s.vol) (hS : FreeIn s.vol S s.dev)
    (hbuf : s.vol.bytesPerSector.toNat ≤ 512 ∨ s'.overrun = false)
    (hr : storeDirectory s = (stored, s')) : ChangesOnly s.vol S s.dev s'.dev := by
  rcases storeDirectory_cases hr with ⟨-, halloc⟩ | ⟨cluster, s₁, halloc, hne, -, rfl⟩
  · exact (fatAllocCluster_changesOnly h hS hbuf halloc).1
  · have hbuf' : s.vol.bytesPerSector.toNat ≤ 512 ∨ s₁.overrun = false := hbuf
    obtain ⟨hmark, hsome⟩ := fatAllocCluster_changesOnly h hS hbuf' halloc
    obtain ⟨n, rfl, hn, haddr, hmem⟩ := hsome hne
    have hlt := h.clusters_lt
    have hlt' := haddr.lt
    rw [BitVec.toNat_ofNat, Nat.mod_eq_of_lt (by omega)]
    exact hmark.trans ((fillCluster_changesOnly h haddr hn).mono
      (Set.singleton_subset_iff.mpr hmem))

/-- Storing a file changes only free clusters. -/
theorem storeFile_changesOnly {S : Set (Option ℕ)} {data : U32 → U8} {size : U32}
    {stored : Option U32} (h : MountedVolume s.vol) (hfats : 0 < s.vol.numFats.toNat)
    (hS : FreeIn s.vol S s.dev)
    (hbuf : s.vol.bytesPerSector.toNat ≤ 512 ∨ s'.overrun = false)
    (hr : storeFile disk data size s = some (stored, s')) : ChangesOnly s.vol S s.dev s'.dev := by
  rcases storeFile_cases hr with ⟨-, -, rfl⟩ | ⟨-, -, halloc⟩ | ⟨-, c, s₁, ok, halloc, hne, hw, -⟩
  · exact .refl S _
  · exact (fatAllocCluster_changesOnly h hS hbuf halloc).1
  · have hvol := (fatAllocCluster_follows halloc).vol
    obtain ⟨hmark, hsome⟩ :=
      fatAllocCluster_changesOnly h hS (hbuf.imp_right (writeClusters_follows hw).overrun) halloc
    obtain ⟨n, rfl, hn, haddr, hmem⟩ := hsome hne
    have hS' := hS.of_changesOnly hfats hmark
    rw [← hvol] at h hfats haddr hmark hbuf hS' ⊢
    exact hmark.trans (writeClusters_changesOnly h hfats hn haddr hmem hS' hbuf hw)

end

end AlderKernel.Fs
