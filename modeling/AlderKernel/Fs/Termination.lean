import AlderKernel.Fs.Calls

/-!
# Every call ends

Whatever a device does, the calls on a mounted volume keep the volume and end: the loops over the
clusters of a file take a cluster off what remains in every turn, even where a chain is a cycle.
-/

namespace AlderKernel.Fs

open Machine

section

variable {σ : Type} {a : Ata σ} {offset bufferSize r : U32} {turns : ℕ} {data buffer : U32 → U8}
  {s : Fat16 σ} {name ext : List U8}

/-- Storing the data of a file keeps the fields of the volume and the mount. -/
theorem storeFile_follows {size : U32} {result : Option U32 × Fat16 σ}
    (hr : storeFile a data size s = some result) : Follows s result.2 := by
  unfold storeFile at hr
  dsimp only at hr
  split_ifs at hr
  · obtain rfl := Option.some.inj hr
    exact fatAllocCluster_follows rfl
  · obtain ⟨⟨ok, s₁⟩, hwrite, hend⟩ := Option.map_eq_some_iff.mp hr
    have hfollows := (fatAllocCluster_follows rfl).trans (writeClusters_follows hwrite)
    dsimp only at hend
    split_ifs at hend
    · obtain rfl := hend
      exact hfollows
    · obtain rfl := hend
      exact hfollows
  · obtain rfl := Option.some.inj hr
    exact .refl s

/-- Reading the clusters of a file keeps the fields of the volume. -/
theorem readClusters_vol {remaining : U32} {result : (Bool × (U32 → U8)) × Fat16 σ}
    (hr : readClusters a bufferSize turns r offset remaining buffer s = some result) :
    result.2.vol = s.vol := by
  induction turns generalizing r offset remaining buffer s with
  | zero => exact absurd hr (by simp [readClusters])
  | succ turns ih =>
    unfold readClusters at hr
    dsimp only at hr
    split_ifs at hr
    · obtain rfl := Option.some.inj hr
      rfl
    · obtain rfl := Option.some.inj hr
      rfl
    · have hvol := ih hr
      exact hvol
    · obtain rfl := Option.some.inj hr
      rfl
    · obtain rfl := Option.some.inj hr
      rfl

/-- `fat16_mkdir_root` keeps the fields of the volume. -/
theorem fat16MkdirRoot_vol : (fat16MkdirRoot a name ext s).2.vol = s.vol := by
  have hvol : (fatAllocCluster a s).2.vol = s.vol := (fatAllocCluster_follows rfl).vol
  unfold fat16MkdirRoot writeEntryInRoot
  dsimp only
  split_ifs
  · exact hvol
  · exact hvol
  · exact hvol
  · exact hvol
  · exact hvol
  · rfl

/-- Creating a file keeps the volume, in whichever directory the entry is written. -/
theorem createFile_vol {f : Option U32 × Fat16 σ → Bool × Fat16 σ} {size : U32}
    {result : Bool × Fat16 σ} (hf : ∀ r, (f r).2.vol = r.2.vol)
    (hr : (if ¬ s.mounted then some (false, s) else (storeFile a data size s).map f) =
      some result) : result.2.vol = s.vol := by
  split_ifs at hr
  · obtain ⟨stored, hstore, rfl⟩ := Option.map_eq_some_iff.mp hr
    rw [hf, (storeFile_follows hstore).vol]
  · obtain rfl := Option.some.inj hr
    rfl

/-- A call that makes a file or a directory keeps the volume. -/
theorem Call.run_vol {call : Call} {result : Result × Fat16 σ} (hr : call.run a s = some result) :
    result.2.vol = s.vol := by
  cases call with
  | mkdirRoot name ext =>
    obtain rfl := Option.some.inj hr
    exact fat16MkdirRoot_vol
  | createFileRoot name ext data size =>
    obtain ⟨r, hcreate, rfl⟩ := Option.map_eq_some_iff.mp hr
    refine createFile_vol (fun r => ?_) hcreate
    rcases r with ⟨_ | cluster, s₁⟩
    · rfl
    · rfl
  | createFileInDir dirCluster name ext data size =>
    obtain ⟨r, hcreate, rfl⟩ := Option.map_eq_some_iff.mp hr
    refine createFile_vol (fun r => ?_) hcreate
    rcases r with ⟨_ | cluster, s₁⟩
    · rfl
    · rfl

/-! ### Every call ends -/

/-- A cluster has at least one byte and less than 16 MB. -/
theorem MountedVolume.bytesPerCluster_bounds {v : Volume} (h : MountedVolume v) :
    0 < (bytesPerCluster v).toNat ∧ (bytesPerCluster v).toNat < 2 ^ 24 := by
  have hsectors := h.sectorsPerCluster_lt
  have hbytes := h.bytesPerSector_lt
  have hmul : v.sectorsPerCluster.toNat * v.bytesPerSector.toNat ≤ 255 * 65535 :=
    Nat.mul_le_mul (by omega) (by omega)
  have hpos := Nat.mul_pos h.sectorsPerCluster_pos h.bytesPerSector_pos
  unfold bytesPerCluster
  rw [BitVec.toNat_mul, Nat.mod_eq_of_lt (by omega)]
  omega

/-- Every turn but the last takes a whole cluster off what remains. -/
theorem MountedVolume.remaining_lt {v : Volume} {remaining : U32} (h : MountedVolume v)
    (hmore : remaining - thisChunk v remaining ≠ 0#32) :
    (remaining - thisChunk v remaining).toNat < remaining.toNat := by
  have hpos := h.bytesPerCluster_bounds.1
  unfold thisChunk at hmore ⊢
  split_ifs at hmore ⊢
  · exact absurd (BitVec.sub_self remaining) hmore
  · bv_omega

/-- `write_file_data` ends, within as many turns as there are bytes and one more. -/
theorem writeClusters_ends {remaining : U32} (h : MountedVolume s.vol)
    (hturns : remaining.toNat < turns) :
    ∃ result, writeClusters a data turns r offset remaining s = some result := by
  induction turns generalizing r offset remaining s with
  | zero => omega
  | succ turns ih =>
    unfold writeClusters
    dsimp only
    split_ifs with hok hlast hfull
    · exact ⟨_, rfl⟩
    · exact ⟨_, rfl⟩
    · have hlt := h.remaining_lt hlast
      apply ih
      · have hvol {s₁ : Fat16 σ} : (fatAllocCluster a s₁).2.vol = s₁.vol :=
          (fatAllocCluster_follows rfl).vol
        show MountedVolume (fatAllocCluster a _).2.vol
        rwa [hvol]
      · omega
    · exact ⟨_, rfl⟩

/-- So does the loop of `fat16_read_file`, even where the chain of the file is a cycle. -/
theorem readClusters_ends {remaining : U32} (h : MountedVolume s.vol)
    (hturns : remaining.toNat < turns) :
    ∃ result, readClusters a bufferSize turns r offset remaining buffer s = some result := by
  induction turns generalizing r offset remaining buffer s with
  | zero => omega
  | succ turns ih =>
    unfold readClusters
    dsimp only
    split_ifs with hpos hok hlast hend
    · exact ⟨_, rfl⟩
    · exact ⟨_, rfl⟩
    · have hlt := h.remaining_lt hlast
      apply ih
      · exact h
      · omega
    · exact ⟨_, rfl⟩
    · exact ⟨_, rfl⟩

/-- Storing the data of a file ends. -/
theorem storeFile_ends {size : U32} (h : MountedVolume s.vol) :
    ∃ result, storeFile a data size s = some result := by
  unfold storeFile
  dsimp only
  split_ifs
  · exact ⟨_, rfl⟩
  · have hvol : (fatAllocCluster a s).2.vol = s.vol := (fatAllocCluster_follows rfl).vol
    obtain ⟨result, hwrite⟩ : ∃ result, writeFileData a (fatAllocCluster a s).1 data size
        (fatAllocCluster a s).2 = some result := writeClusters_ends (hvol ▸ h) size.isLt
    exact ⟨_, by rw [hwrite, Option.map_some]⟩
  · exact ⟨_, rfl⟩

/-- A call that makes a file or a directory on a mounted volume ends. -/
theorem Call.ends (call : Call) (h : MountedVolume s.vol) :
    ∃ result, call.run a s = some result := by
  have hcreate {f : Option U32 × Fat16 σ → Bool × Fat16 σ} {data : U32 → U8} {size : U32} :
      ∃ result, (if ¬ s.mounted then some (false, s) else (storeFile a data size s).map f) =
        some result := by
    obtain ⟨stored, hstore⟩ : ∃ result, storeFile a data size s = some result := storeFile_ends h
    rw [hstore]
    split_ifs
    · exact ⟨_, rfl⟩
    · exact ⟨_, rfl⟩
  cases call with
  | mkdirRoot name ext => exact ⟨_, rfl⟩
  | createFileRoot name ext data size =>
    obtain ⟨result, hrun⟩ := hcreate
    exact ⟨_, Option.map_eq_some_iff.mpr ⟨result, hrun, rfl⟩⟩
  | createFileInDir dirCluster name ext data size =>
    obtain ⟨result, hrun⟩ := hcreate
    exact ⟨_, Option.map_eq_some_iff.mpr ⟨result, hrun, rfl⟩⟩

end

end AlderKernel.Fs
