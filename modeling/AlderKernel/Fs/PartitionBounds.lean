import AlderKernel.Fs.Names
import AlderKernel.Fs.Layout

/-!
# Allocation at the end of the partition

The allocator goes as far as the FAT has entries, and the partition has fewer clusters. So what
it hands out lies in the partition while one of those is free.
-/

namespace AlderKernel.Fs

open Machine

/-- All sectors of a cluster lie in the partition. -/
def ClusterIn (p count : U32) (v : Volume) (c : U32) : Prop :=
  ∀ i < v.sectorsPerCluster.toNat, InPartition p count (clusterToLba v c + BitVec.ofNat 32 i)

section

variable {p count : U32} {c : ℕ} {d : Disk} {s s₀ sf : Fat16 Disk} {log : List (Call × Result)}

/-- The number of clusters that `fat16_format` counts. -/
theorem toNat_clusterCount (hsize : Admitted count) :
    (clusterCount count).toNat = (count.toNat - 545) / 64 := by
  have hlarge := hsize.1
  have hnon : reservedSectors + numFats * fatSizeSectors + rootDirSectors = 545#32 := by decide
  unfold clusterCount
  rw [hnon, BitVec.toNat_udiv, BitVec.toNat_sub_of_le (by bv_omega)]
  rfl

/-- The clusters in the partition are those that `fat16_format` has counted. -/
theorem clusterIn_iff (hsize : Admitted count) (hwrap : p.toNat + count.toNat ≤ 2 ^ 32)
    (hc : 2 ≤ c) (hlt : c < 65536) :
    ClusterIn p count (formattedVolume p) (BitVec.ofNat 32 c) ↔
      c ≤ (clusterCount count).toNat + 1 := by
  have hlarge := hsize.1
  have hlba (i : ℕ) : clusterToLba (formattedVolume p) (BitVec.ofNat 32 c) + BitVec.ofNat 32 i =
      p + 1#32 + BitVec.ofNat 32 (544 + (c - 2) * 64 + i) := by
    rw [(formattedVolume_mounted p).clusterToLba_eq hc, formatted_clusterOffset]
    rfl
  rw [toNat_clusterCount hsize]
  unfold ClusterIn InPartition
  rw [formatted_sectorsPerCluster]
  constructor
  · intro h
    have hlast := h 63 (by omega)
    rw [hlba] at hlast
    bv_omega
  · intro hle i hi
    rw [hlba]
    bv_omega

/-- Calls keep the volume. -/
theorem CallRun.vol {ok : List (Call × Result) → Call → Prop} (h : CallRun ok s₀ s log) :
    s.vol = s₀.vol := by
  induction h with
  | start => rfl
  | call _ _ hr ih => exact (Call.run_vol hr).trans ih

/-- What the allocator does on a formatted volume, whatever its FAT holds. -/
theorem fatAllocCluster_formatted (hvol : s.vol = formattedVolume p) :
    (fatAllocCluster disk s).1 = 0#32 ∧ (∀ c, 2 ≤ c → c < 65536 → entryAt s.vol s.dev 0 c ≠ 0#16) ∨
      ∃ c, (fatAllocCluster disk s).1 = BitVec.ofNat 32 c ∧ 2 ≤ c ∧ c < 65536 ∧
        entryAt s.vol s.dev 0 c = 0#16 ∧ ∀ m, 2 ≤ m → m < c → entryAt s.vol s.dev 0 m ≠ 0#16 := by
  have hmounted : MountedVolume s.vol := by
    rw [hvol]
    exact formattedVolume_mounted p
  have hbytes : s.vol.bytesPerSector.toNat ≤ 512 := by rw [hvol, formatted_bytesPerSector]
  have hclusters : s.vol.clusters = 65536 := by rw [hvol, formatted_clusters]
  rcases fatAllocCluster_cases hmounted (.inl hbytes) rfl with
    ⟨hzero, -, hused⟩ | ⟨c, hc, htwo, haddr, hfree, hused, -⟩
  · rw [hclusters] at hused
    exact .inl ⟨hzero, hused⟩
  · exact .inr ⟨c, hc, htwo, hclusters ▸ haddr.lt, hfree, hused⟩

/-- Clusters that are handed out lie in the partition. For every partition that `fat16_format`
accepts and every state that calls reach after it is mounted: a cluster that `fat_alloc_cluster`
returns lies in the partition if and only if one of the clusters that `fat16_format` has counted is
free, or none up to the end of the FAT. -/
theorem alloc_in_partition_iff (hformat : fat16Format disk p count d = (true, sf.dev))
    (hmount : fat16Mount disk p sf = (true, s₀)) (hwrap : p.toNat + count.toNat ≤ 2 ^ 32)
    (hrun : CallRun AnyCall s₀ s log) :
    ((fatAllocCluster disk s).1 ≠ 0#32 → ClusterIn p count s.vol (fatAllocCluster disk s).1) ↔
      (∃ c, 2 ≤ c ∧ c ≤ (clusterCount count).toNat + 1 ∧ entryAt s.vol s.dev 0 c = 0#16) ∨
        ∀ c, 2 ≤ c → c < 65536 → entryAt s.vol s.dev 0 c ≠ 0#16 := by
  obtain ⟨-, hsize⟩ := fat16Format_disk hformat
  have hvol : s.vol = formattedVolume p := hrun.vol.trans (stores_fresh hformat hmount).1.vol
  have hcount := toNat_clusterCount hsize
  have hbound := hsize.2.2
  rcases fatAllocCluster_formatted hvol with ⟨hzero, hused⟩ | ⟨c, hc, htwo, hlt, hfree, hused⟩
  · exact iff_of_true (fun hne => absurd hzero hne) (.inr hused)
  · have hne : BitVec.ofNat 32 c ≠ 0#32 := by bv_omega
    rw [hc, hvol, clusterIn_iff hsize hwrap htwo hlt, ← hvol]
    constructor
    · exact fun h => .inl ⟨c, htwo, h hne, hfree⟩
    · rintro (⟨m, hm, hle, hfree'⟩ | hall) -
      · by_contra hgt
        exact hused m hm (by omega) hfree'
      · exact absurd hfree (hall c htwo hlt)

end

/-- On an empty volume the first cluster is handed out, and it lies in the partition. -/
theorem emptyMounted_alloc : (fatAllocCluster disk emptyMounted).1 ≠ 0#32 ∧
    ClusterIn 2048#32 297952#32 emptyMounted.vol (fatAllocCluster disk emptyMounted).1 := by
  have hfree := (emptyMounted_stores.2.used.free_iff 2 (by omega) (by omega)).mpr (by omega)
  have hne : (fatAllocCluster disk emptyMounted).1 ≠ 0#32 := by
    rcases fatAllocCluster_formatted (s := emptyMounted) rfl with ⟨-, hused⟩ | ⟨c, hc, hle, hlt, -⟩
    · exact absurd hfree (hused 2 (by omega) (by omega))
    · rw [hc]
      bv_omega
  exact ⟨hne, (alloc_in_partition_iff emptyMounted_fresh.1 emptyMounted_fresh.2 (by decide)
    .start).mpr (.inl ⟨2, by omega, by decide, hfree⟩) hne⟩

/-- A call that makes a file of 4646 clusters, as many as the partition of `emptyMounted` has. -/
def fillPartition : Call := .createFileRoot [0x41#8] [] (fun _ => 0#8) 152240128#32

/-- After the file that takes all clusters of the partition the allocator hands out the one
behind. -/
theorem fillPartition_escapes : ∃ s, CallRun AnyCall emptyMounted s [(fillPartition, .file)] ∧
    (fatAllocCluster disk s).1 ≠ 0#32 ∧
      ¬ ClusterIn 2048#32 297952#32 s.vol (fatAllocCluster disk s).1 := by
  obtain ⟨hm₀, hs₀⟩ := emptyMounted_stores
  have hclusters : fillPartition.clusters = 4646 := by
    simp [fillPartition, Call.clusters, clustersFor]
  obtain ⟨f, s, hr, hm, hs⟩ :=
    hs₀.succeeds hm₀ fillPartition (.inl rfl) (by omega) (entries_lt (by simp))
  refine ⟨s, .call .start trivial hr, ?_⟩
  rw [hclusters] at hs
  obtain ⟨⟨c, s'⟩, hc⟩ : ∃ r, fatAllocCluster disk s = r := ⟨_, rfl⟩
  rcases hs.used.alloc hm.vol hc with ⟨-, -, hfull⟩ | ⟨rfl, -, -⟩
  · omega
  · rw [hc, hm.vol, clusterIn_iff (by simp [Admitted]) (by decide) (by omega) (by omega)]
    exact ⟨by simp, by decide⟩

end AlderKernel.Fs
