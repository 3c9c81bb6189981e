import AlderKernel.Fs.Calls

/-!
# Calls that fail

What a failing call leaves of the FAT. Nothing in the code gives a cluster back: the clusters
that the call had taken stay taken, and the entries of all others are untouched.
-/

namespace AlderKernel.Fs

open Machine

/-- The call has something to store, so that it begins with the allocation of a cluster. -/
def Call.needsCluster : Call → Bool
  | .mkdirRoot _ _ => true
  | .createFileRoot _ _ _ size => size ≠ 0#32
  | .createFileInDir _ _ _ _ size => size ≠ 0#32

section

variable {s s' : Fat16 Disk} {call : Call}

/-- What a call stores goes to free clusters. -/
theorem Call.store_changesOnly {S : Set (Option ℕ)} {stored : Option U32}
    (h : MountedVolume s.vol) (hfats : 0 < s.vol.numFats.toNat) (hS : FreeIn s.vol S s.dev)
    (hbuf : s.vol.bytesPerSector.toNat ≤ 512 ∨ s'.overrun = false)
    (hr : call.store s = some (stored, s')) : ChangesOnly s.vol S s.dev s'.dev := by
  cases call with
  | mkdirRoot name ext => exact storeDirectory_changesOnly h hS hbuf (Option.some.inj hr)
  | createFileRoot name ext data size => exact storeFile_changesOnly h hfats hS hbuf hr
  | createFileInDir dirCluster name ext data size => exact storeFile_changesOnly h hfats hS hbuf hr

/-- Without a free cluster, or without need of one, nothing is stored. -/
theorem Call.store_unchanged {stored : Option U32} (h : MountedVolume s.vol)
    (hbuf : s.vol.bytesPerSector.toNat ≤ 512 ∨ s'.overrun = false)
    (hnone : call.needsCluster = false ∨ InUse s.vol s.dev 2 s.vol.clusters)
    (hr : call.store s = some (stored, s')) : s'.dev = s.dev := by
  have hfull : InUse s.vol s.dev 2 s.vol.clusters → ∀ r s₁, fatAllocCluster disk s = (r, s₁) →
      (s.vol.bytesPerSector.toNat ≤ 512 ∨ s₁.overrun = false) → r = 0#32 ∧ s₁ = s := by
    intro hused r s₁ halloc hbuf₁
    rcases fatAllocCluster_cases h hbuf₁ halloc with ⟨hzero, hsame, -⟩ | ⟨n, -, hn, haddr, hfree, -⟩
    · exact ⟨hzero, hsame⟩
    · exact absurd hfree (hused n hn haddr.lt)
  have hfile : ∀ data size, (size = 0#32 ∨ InUse s.vol s.dev 2 s.vol.clusters) →
      storeFile disk data size s = some (stored, s') → s'.dev = s.dev := by
    intro data size hnone hr
    rcases storeFile_cases hr with ⟨-, -, rfl⟩ | ⟨hsize, -, halloc⟩ | ⟨hsize, c, s₁, ok, hfound⟩
    · rfl
    · rw [(hfull (hnone.resolve_left hsize) _ _ halloc hbuf).2]
    · obtain ⟨halloc, hne, hw, -⟩ := hfound
      have hbuf₁ := hbuf.imp_right (writeClusters_follows hw).overrun
      exact absurd (hfull (hnone.resolve_left hsize) _ _ halloc hbuf₁).1 hne
  cases call with
  | mkdirRoot name ext =>
    have hused := hnone.resolve_left (by simp [needsCluster])
    rcases storeDirectory_cases (Option.some.inj hr) with ⟨-, halloc⟩ | ⟨c, s₁, halloc, hne, -, rfl⟩
    · rw [(hfull hused _ _ halloc hbuf).2]
    · exact absurd (hfull hused _ _ halloc hbuf).1 hne
  | createFileRoot name ext data size =>
    exact hfile data size (by simpa [needsCluster] using hnone) hr
  | createFileInDir dirCluster name ext data size =>
    exact hfile data size (by simpa [needsCluster] using hnone) hr

/-- A failing call on a mounted volume, as long as no sector buffer is indexed outside its bytes,
changes only entries of clusters that were free before it, and changes nothing when there was no
free cluster or no need of one. -/
theorem failedCall_changes {partitionLba : U32} {s₀ s₁ : Fat16 Disk}
    (hmount : fat16Mount disk partitionLba s₀ = (true, s₁)) (hvol : s.vol = s₁.vol)
    (hm : s.mounted = true) (hr : call.run disk s = some (.failed, s'))
    (hbuf : s.vol.bytesPerSector.toNat ≤ 512 ∨ s'.overrun = false) :
    (∀ copy < s.vol.numFats.toNat, ∀ c, s.vol.Addressable c →
      entryAt s.vol s'.dev copy c ≠ entryAt s.vol s.dev copy c →
        2 ≤ c ∧ entryAt s.vol s.dev 0 c = 0#16) ∧
    (call.needsCluster = false ∨ InUse s.vol s.dev 2 s.vol.clusters → s'.dev = s.dev) := by
  have h : MountedVolume s.vol := by
    rw [hvol]
    exact (fat16Mount_disk hmount).1
  obtain ⟨stored, s₂, hstore, hend⟩ := Call.run_cases h hm hr
  obtain rfl : s' = s₂ := by
    rcases hend with ⟨-, -, rfl⟩ | ⟨cluster, -, -, rfl, -⟩ | ⟨cluster, i, -, hsuccess, -⟩
    · rfl
    · rfl
    · exact absurd hsuccess.symm (call.success_ne_failed cluster)
  constructor
  · intro copy hcopy c haddr hne
    by_contra hused
    have hS : FreeIn s.vol {x | ∃ n, x = some n ∧ 2 ≤ n ∧ entryAt s.vol s.dev 0 n = 0#16} s.dev :=
      fun n hn _ hzero => ⟨n, rfl, hn, hzero⟩
    have hframe := Call.store_changesOnly h (by omega) hS hbuf hstore
    apply hne
    apply hframe.entry copy hcopy c haddr
    rintro ⟨n, hn, hfree⟩
    rw [Option.some.inj hn] at hused
    exact hused hfree
  · intro hnone
    exact Call.store_unchanged h hbuf hnone hstore

end

/-- A boot sector of a volume with one FAT of one sector, a root directory of one sector and
clusters of one sector. -/
def smallBootSector : Sector := .ofFn fun i =>
  match i with
  | 12 => 2#8
  | 13 => 1#8
  | 14 => 1#8
  | 16 => 1#8
  | 17 => 16#8
  | 22 => 1#8
  | 510 => 0x55#8
  | 511 => 0xAA#8
  | _ => 0#8

/-- A disk with that volume: all clusters are free, and all slots of the root directory are used. -/
def fullRootDisk : Disk := fun lba =>
  if lba = 0#32 then smallBootSector else if lba = 1#32 then .zero else .ofFn fun _ => 0x41#8

/-- The state of the kernel before it mounts that disk. -/
def fullRootStart : Fat16 Disk where
  vol := ⟨0#32, 0#32, 0#32, 0#32, 0#32, 0#32, 0#32, 0#32, 0#32, 0#32, 0#32⟩
  mounted := false
  dev := fullRootDisk
  overrun := false

/-- The state after it is mounted. -/
def fullRootMounted : Fat16 Disk := (fat16Mount disk 0#32 fullRootStart).2

/-- The call that creates a file of one byte in its root directory. -/
def createSmall : Call := .createFileRoot [0x41#8] [] (fun _ => 0x5A#8) 1#32

/-- The volume with the full root directory is mounted. -/
theorem fullRootMounted_eq : fat16Mount disk 0#32 fullRootStart = (true, fullRootMounted) :=
  Prod.ext (by decide) rfl

/-- The call fails there, and takes cluster 2. -/
theorem createSmall_run : ∃ s', createSmall.run disk fullRootMounted = some (.failed, s') ∧
    s'.overrun = false ∧ entryAt fullRootMounted.vol s'.dev 0 2 = 0xFFFF#16 := by
  have hrun : (createSmall.run disk fullRootMounted).map (fun r => (r.1, r.2.overrun,
      entryAt fullRootMounted.vol r.2.dev 0 2)) = some (.failed, false, 0xFFFF#16) := by
    decide
  obtain ⟨⟨result, s'⟩, hr, heq⟩ := Option.map_eq_some_iff.mp hrun
  simp only [Prod.mk.injEq] at heq
  obtain ⟨rfl, hover, hentry⟩ := heq
  exact ⟨s', hr, hover, hentry⟩

/-- A call that fails for want of a free slot can leave a cluster taken. -/
theorem failedCall_takes_cluster :
    ∃ (partitionLba : U32) (s₀ s s' : Fat16 Disk) (call : Call),
      fat16Mount disk partitionLba s₀ = (true, s) ∧ call.run disk s = some (.failed, s') ∧
      s'.overrun = false ∧ ∃ copy < s.vol.numFats.toNat, ∃ c < s.vol.clusters,
        entryAt s.vol s'.dev copy c ≠ entryAt s.vol s.dev copy c := by
  obtain ⟨s', hr, hover, hentry⟩ := createSmall_run
  refine ⟨0#32, fullRootStart, fullRootMounted, s', createSmall, fullRootMounted_eq, hr, hover,
    0, by decide, 2, by decide, ?_⟩
  rw [hentry]
  decide

/-- The failing call on the disk with the full root directory. -/
theorem fullRoot_failedCall : ∃ s', createSmall.run disk fullRootMounted = some (.failed, s') ∧
    ∀ c, fullRootMounted.vol.Addressable c →
      entryAt fullRootMounted.vol s'.dev 0 c ≠ entryAt fullRootMounted.vol fullRootMounted.dev 0 c →
        2 ≤ c ∧ entryAt fullRootMounted.vol fullRootMounted.dev 0 c = 0#16 := by
  obtain ⟨s', hr, hover, -⟩ := createSmall_run
  have h := failedCall_changes fullRootMounted_eq rfl (by decide) hr (Or.inr hover)
  exact ⟨s', hr, h.1 0 (by decide)⟩

end AlderKernel.Fs
