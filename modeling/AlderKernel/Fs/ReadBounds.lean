import AlderKernel.Fs.ReadFile
import AlderKernel.Fs.Termination

/-!
# Reading on any FAT

`fat16_read_file` follows links that come from the disk. Whatever they are, every turn takes what it
has copied off the remaining size, and offset and remaining size never add up to more than the size:
no counter wraps, and no byte is written beyond the file or the buffer.
-/

namespace AlderKernel.Fs

open Machine

/-- What `fat16_read_file` does with its counters and with the buffer. -/
inductive ReadStep where
  | add (x y : U32)
  | sub (x y : U32)
  | write (i : U32)

/-- A sum or a difference that does not wrap, or a write below an index. -/
def ReadStep.Bounded (limit : ℕ) : ReadStep → Prop
  | .add x y => x.toNat + y.toNat < 2 ^ 32
  | .sub x y => y.toNat ≤ x.toNat
  | .write i => i.toNat < limit

/-- The steps of one turn of the copy loop, for byte `b` of a sector. -/
def copyByteSteps (offset readInCluster bufferSize b : U32) : List ReadStep :=
  [.add offset readInCluster, .add (offset + readInCluster) b] ++
    if offset + readInCluster + b < bufferSize then [.write (offset + readInCluster + b)] else []

/-- The steps of the copy loop. -/
def copySteps (offset readInCluster len bufferSize : U32) : List ReadStep :=
  (List.range len.toNat).flatMap fun b =>
    copyByteSteps offset readInCluster bufferSize (BitVec.ofNat 32 b)

section

variable {σ : Type} (a : Ata σ)

/-- The steps of the loop of `fat16_read_file` over the sectors of a cluster. -/
def readClusterSteps (base offset chunk bufferSize : U32) : ℕ → U32 → U32 → σ → List ReadStep
  | 0, _, _, _ => []
  | turns + 1, s, readInCluster, d =>
    if readInCluster < chunk then
      let r := a.readSector (base + s) d
      if ¬ r.1.1 then [] else
      .sub chunk readInCluster ::
        copySteps offset readInCluster (copyLen chunk readInCluster) bufferSize ++
        .add readInCluster 512#32 ::
        readClusterSteps base offset chunk bufferSize turns (s + 1#32) (readInCluster + 512#32) r.2
    else []

/-- The steps of the loop of `fat16_read_file` over the clusters. -/
def readClustersSteps (bufferSize : U32) :
    ℕ → U32 → U32 → U32 → (U32 → U8) → Fat16 σ → List ReadStep
  | 0, _, _, _, _, _ => []
  | turns + 1, cluster, offset, remaining, buffer, s =>
    if 0#32 < remaining then
      let base := clusterToLba s.vol cluster
      let chunk := thisChunk s.vol remaining
      let r := readClusterData a base offset chunk bufferSize
        s.vol.sectorsPerCluster.toNat 0#32 0#32
        buffer s.dev
      readClusterSteps a base offset chunk bufferSize s.vol.sectorsPerCluster.toNat 0#32 0#32
        s.dev ++
        let s := { s with dev := r.2 }
        if ¬ r.1.1 then [] else
        .add offset chunk :: .sub remaining chunk ::
          if remaining - chunk = 0#32 then [] else
          let next := fatReadEntry a cluster s
          if 0xFFF8#16 ≤ next.1 then [] else
          readClustersSteps bufferSize turns (next.1.setWidth 32) (offset + chunk)
            (remaining - chunk)
            r.1.2 next.2
    else []

/-- The steps of `fat16_read_file`. -/
def readFileSteps (firstCluster size : U32) (buffer : U32 → U8) (bufferSize : U32) (s : Fat16 σ) :
    List ReadStep :=
  if ¬ s.mounted then [] else
  if size = 0#32 ∨ firstCluster = 0#32 then [] else
  readClustersSteps a bufferSize (2 ^ 32) firstCluster 0#32 size buffer s

end

section

variable {σ : Type} {a : Ata σ} {base offset chunk bufferSize remaining readInCluster len : U32}
  {buffer : U32 → U8} {turns : ℕ} {d : σ} {s : Fat16 σ} {cluster i : U32} {sector : Sector}

/-! ### What is not written is kept -/

/-- What no step writes stays in the buffer, for one sector. -/
theorem copyToBuffer_frame (h : .write i ∉ copySteps offset readInCluster len bufferSize) :
    copyToBuffer sector (offset + readInCluster) len bufferSize buffer i = buffer i := by
  unfold copyToBuffer
  rw [if_neg]
  rintro ⟨hlt, hfits⟩
  apply h
  have hdest : offset + readInCluster + (i - (offset + readInCluster)) = i := by
    bv_omega
  refine List.mem_flatMap.mpr ⟨(i - (offset + readInCluster)).toNat, List.mem_range.mpr hlt, ?_⟩
  unfold copyByteSteps
  rw [BitVec.ofNat_toNat, BitVec.setWidth_eq, hdest, if_pos hfits]
  simp

/-- What no step writes stays in the buffer, for one cluster. -/
theorem readClusterData_frame {k : U32} (buffer : U32 → U8)
    (h : .write i ∉ readClusterSteps a base offset chunk bufferSize turns k readInCluster d) :
    (readClusterData a base offset chunk bufferSize turns k readInCluster buffer d).1.2 i =
      buffer i := by
  induction turns generalizing k readInCluster buffer d with
  | zero => rfl
  | succ turns ih =>
    unfold readClusterSteps at h
    unfold readClusterData
    dsimp only at h ⊢
    by_cases hmore : readInCluster < chunk
    · rw [if_pos hmore] at h ⊢
      by_cases hread : (a.readSector (base + k) d).1.1 = true
      · rw [if_neg (not_not_intro hread)] at h ⊢
        simp only [List.cons_append, List.mem_cons, List.mem_append, not_or] at h
        rw [ih _ h.2.2.2]
        exact copyToBuffer_frame h.2.1
      · rw [if_pos hread]
    · rw [if_neg hmore]

/-- An index that no step writes keeps its byte. -/
theorem readClusters_frame {r : (Bool × (U32 → U8)) × Fat16 σ}
    (hr : readClusters a bufferSize turns cluster offset remaining buffer s = some r)
    (h : .write i ∉ readClustersSteps a bufferSize turns cluster offset remaining buffer s) :
    r.1.2 i = buffer i := by
  induction turns generalizing cluster offset remaining buffer s with
  | zero => simp [readClusters] at hr
  | succ turns ih =>
    unfold readClusters at hr
    unfold readClustersSteps at h
    dsimp only at hr h
    by_cases hmore : 0#32 < remaining
    · rw [if_pos hmore] at hr h
      rw [List.mem_append, not_or] at h
      have hdata := readClusterData_frame buffer h.1
      split_ifs at hr h with hread hlast hend
      · obtain rfl := Option.some.inj hr
        exact hdata
      · obtain rfl := Option.some.inj hr
        exact hdata
      · simp only [List.mem_cons, not_or] at h
        rw [ih hr h.2.2.2]
        exact hdata
      · obtain rfl := Option.some.inj hr
        exact hdata
    · rw [if_neg hmore] at hr
      obtain rfl := Option.some.inj hr
      rfl

/-! ### The steps are bounded -/

/-- The steps for one sector stay inside the buffer. -/
theorem copySteps_bounded {limit : ℕ} (h : offset.toNat + readInCluster.toNat + len.toNat ≤ limit)
    (hlimit : limit < 2 ^ 32) : ∀ step ∈ copySteps offset readInCluster len bufferSize,
      step.Bounded (min limit bufferSize.toNat) := by
  intro step hstep
  obtain ⟨b, hb, hstep⟩ := List.mem_flatMap.mp hstep
  rw [List.mem_range] at hb
  unfold copyByteSteps at hstep
  simp only [List.cons_append, List.nil_append, List.mem_cons] at hstep
  obtain rfl | rfl | hstep := hstep
  · show offset.toNat + readInCluster.toNat < 2 ^ 32
    omega
  · show (offset + readInCluster).toNat + (BitVec.ofNat 32 b).toNat < 2 ^ 32
    bv_omega
  · split_ifs at hstep with hfits
    · obtain rfl := List.mem_singleton.mp hstep
      show (offset + readInCluster + BitVec.ofNat 32 b).toNat < min limit bufferSize.toNat
      bv_omega
    · cases hstep

/-- Within a cluster, the bytes that were copied and those of the next sector lie in the chunk. -/
theorem readClusterSteps_bounded {limit k : ℕ} (hk : k + turns ≤ 255)
    (h : offset.toNat + chunk.toNat ≤ limit) (hlimit : limit < 2 ^ 32) :
    ∀ step ∈ readClusterSteps a base offset chunk bufferSize turns (BitVec.ofNat 32 k)
      (BitVec.ofNat 32 (512 * k)) d, step.Bounded (min limit bufferSize.toNat) := by
  induction turns generalizing k d with
  | zero =>
    intro step hstep
    cases hstep
  | succ turns ih =>
    intro step hstep
    unfold readClusterSteps at hstep
    dsimp only at hstep
    split_ifs at hstep with hmore hread
    · have hlen : (BitVec.ofNat 32 (512 * k)).toNat +
          (copyLen chunk (BitVec.ofNat 32 (512 * k))).toNat ≤ chunk.toNat := by
        unfold copyLen
        split_ifs <;> bv_omega
      have hnext : BitVec.ofNat 32 (512 * k) + 512#32 = BitVec.ofNat 32 (512 * (k + 1)) := by
        rw [Nat.mul_add, BitVec.ofNat_add]
      rw [hnext, show BitVec.ofNat 32 k + 1#32 = BitVec.ofNat 32 (k + 1) from
        (BitVec.ofNat_add k 1).symm] at hstep
      simp only [List.cons_append, List.mem_cons, List.mem_append] at hstep
      obtain rfl | hstep | rfl | hstep := hstep
      · show (BitVec.ofNat 32 (512 * k)).toNat ≤ chunk.toNat
        omega
      · exact copySteps_bounded (by omega) hlimit step hstep
      · show (BitVec.ofNat 32 (512 * k)).toNat + 512 < 2 ^ 32
        bv_omega
      · exact ih (by omega) step hstep
    · cases hstep
    · cases hstep

/-- Offset and remaining size never add up to more than the size of the file. -/
theorem readClustersSteps_bounded {limit : ℕ} (hv : MountedVolume s.vol)
    (hb : s.vol.bytesPerSector = 512#32) (h : offset.toNat + remaining.toNat ≤ limit)
    (hlimit : limit < 2 ^ 32) :
    ∀ step ∈ readClustersSteps a bufferSize turns cluster offset remaining buffer s,
      step.Bounded (min limit bufferSize.toNat) := by
  induction turns generalizing cluster offset remaining buffer s with
  | zero =>
    intro step hstep
    cases hstep
  | succ turns ih =>
    intro step hstep
    have hspc := hv.sectorsPerCluster_lt
    have hchunk := toNat_thisChunk_of_512 remaining hv hb
    unfold readClustersSteps at hstep
    dsimp only at hstep
    by_cases hmore : 0#32 < remaining
    · rw [if_pos hmore] at hstep
      rw [List.mem_append] at hstep
      rcases hstep with hstep | hstep
      · exact readClusterSteps_bounded (k := 0) (by omega) (by omega) hlimit step hstep
      · by_cases hread : (readClusterData a (clusterToLba s.vol cluster) offset
            (thisChunk s.vol remaining) bufferSize s.vol.sectorsPerCluster.toNat 0#32 0#32 buffer
            s.dev).1.1 = true
        · rw [if_neg (not_not_intro hread)] at hstep
          rw [List.mem_cons, List.mem_cons] at hstep
          obtain rfl | rfl | hstep := hstep
          · show offset.toNat + (thisChunk s.vol remaining).toNat < 2 ^ 32
            omega
          · show (thisChunk s.vol remaining).toNat ≤ remaining.toNat
            omega
          · split_ifs at hstep with hlast hend
            · cases hstep
            · cases hstep
            · refine ih ?_ ?_ ?_ step hstep
              · exact hv
              · exact hb
              · bv_omega
        · rw [if_pos hread] at hstep
          cases hstep
    · rw [if_neg hmore] at hstep
      cases hstep

/-- No more clusters are visited than the remaining size takes. -/
theorem visitedClusters_length (hv : MountedVolume s.vol) (hb : s.vol.bytesPerSector = 512#32) :
    (visitedClusters a bufferSize turns cluster offset remaining buffer s).length ≤
      s.vol.clustersNeeded remaining.toNat := by
  induction turns generalizing cluster offset remaining buffer s with
  | zero => exact Nat.zero_le _
  | succ turns ih =>
    unfold visitedClusters
    dsimp only
    by_cases hmore : 0#32 < remaining
    · have hpos := hv.clustersNeeded_pos (show 0 < remaining.toNat by bv_omega)
      rw [if_pos hmore]
      split_ifs with hread hlast hend
      · exact hpos
      · exact hpos
      · rw [hv.clustersNeeded_rest hb hlast]
        apply Nat.succ_le_succ
        refine ih ?_ ?_
        · exact hv
        · exact hb
      · exact hpos
    · rw [if_neg hmore]
      exact Nat.zero_le _

end

/-- On a volume with sectors of 512 bytes, whatever the FAT and the rest of the device hold,
`fat16_read_file` ends. It visits no more clusters than the size takes, its counters do not wrap,
and it writes only below the size and the size of the buffer. -/
theorem fat16ReadFile_bounded {σ : Type} {a : Ata σ} {partitionLba : U32} {s₀ s' : Fat16 σ}
    (hmount : fat16Mount a partitionLba s₀ = (true, s')) (hb : s'.vol.bytesPerSector = 512#32)
    (s : Fat16 σ) (hvol : s.vol = s'.vol) (first size : U32) (buffer : U32 → U8)
    (bufferSize : U32) :
    ∃ r, fat16ReadFile a first size buffer bufferSize s = some r ∧
      (readFileVisits a first size buffer bufferSize s).length ≤ s.vol.clustersNeeded size.toNat ∧
      (∀ step ∈ readFileSteps a first size buffer bufferSize s,
        step.Bounded (min size.toNat bufferSize.toNat)) ∧
      ∀ i : U32, min size.toNat bufferSize.toNat ≤ i.toNat → r.1.2 i = buffer i := by
  have hv : MountedVolume s.vol := hvol ▸ (fat16Mount_success hmount).1
  rw [← hvol] at hb
  unfold fat16ReadFile readFileVisits readFileSteps
  by_cases hm : s.mounted = true
  · rw [if_neg (not_not_intro hm), if_neg (not_not_intro hm), if_neg (not_not_intro hm)]
    by_cases hempty : size = 0#32 ∨ first = 0#32
    · rw [if_pos hempty, if_pos hempty, if_pos hempty]
      exact ⟨_, rfl, Nat.zero_le _, List.forall_mem_nil _, fun _ _ => rfl⟩
    · rw [if_neg hempty, if_neg hempty, if_neg hempty]
      obtain ⟨r, hr⟩ : ∃ r, readClusters a bufferSize (2 ^ 32) first 0#32 size buffer s = some r :=
        readClusters_ends hv size.isLt
      have hbounded : ∀ step ∈ readClustersSteps a bufferSize (2 ^ 32) first 0#32 size buffer s,
          step.Bounded (min size.toNat bufferSize.toNat) :=
        readClustersSteps_bounded hv hb (by bv_omega) size.isLt
      refine ⟨r, hr, visitedClusters_length hv hb, hbounded, fun i hi => ?_⟩
      apply readClusters_frame hr
      intro hwrite
      have hlt : i.toNat < min size.toNat bufferSize.toNat := hbounded _ hwrite
      omega
  · rw [if_pos hm, if_pos hm, if_pos hm]
    exact ⟨_, rfl, Nat.zero_le _, List.forall_mem_nil _, fun _ _ => rfl⟩

/-- A mounted volume whose FAT makes every chain end in a cycle: cluster 514 is behind itself. -/
def cyclicMounted : Fat16 Disk :=
  ⟨formattedVolume 2048#32, true, fun _ => .ofFn fun _ => 2#8, false⟩

/-- Reading four gigabytes from the cycle ends, and leaves what is behind a buffer of 16 bytes
alone. -/
theorem cyclicMounted_bounded : linkOf (formattedVolume 2048#32) cyclicMounted.dev 514#32 = 514#32 ∧
    ∃ r, fat16ReadFile disk 514#32 0xFFFFFFFF#32 (fun _ => 0xAA#8) 16#32 cyclicMounted = some r ∧
      (readFileVisits disk 514#32 0xFFFFFFFF#32 (fun _ => 0xAA#8) 16#32 cyclicMounted).length ≤
        131072 ∧ r.1.2 16#32 = 0xAA#8 := by
  refine ⟨by decide, ?_⟩
  obtain ⟨s, s', hmount, hvol⟩ := exists_mount_formatted 2048#32
  have hb : s'.vol.bytesPerSector = 512#32 := by
    rw [hvol]
    rfl
  obtain ⟨r, hr, hvisits, -, hkept⟩ := fat16ReadFile_bounded hmount hb cyclicMounted hvol.symm
    514#32 0xFFFFFFFF#32 (fun _ => 0xAA#8) 16#32
  exact ⟨r, hr, hvisits, hkept 16#32 (by decide)⟩

end AlderKernel.Fs
