import AlderKernel.Fs.Disk

/-!
# The FAT on a disk without failures

What reading and writing an entry and allocating a cluster do to a mounted volume, and the
relation `ChangesOnly` between two disks that differ only in given clusters.
-/

namespace AlderKernel.Fs

open Machine

/-- The sector of an entry in its FAT copy. -/
def Volume.entrySector (v : Volume) (c : ℕ) : ℕ := 2 * c / v.bytesPerSector.toNat

/-- The place of an entry in its sector. -/
def Volume.entryByte (v : Volume) (c : ℕ) : ℕ := 2 * c % v.bytesPerSector.toNat

/-- The number of the sector that holds an entry of a FAT copy. -/
def Volume.entryOffset (v : Volume) (copy c : ℕ) : ℕ :=
  copy * v.fatSizeSectors.toNat + v.entrySector c

/-- The entry of a cluster in a FAT copy. -/
def entryAt (v : Volume) (d : Disk) (copy c : ℕ) : U16 :=
  (word16 (d (v.lba (v.entryOffset copy c))) (v.entryByte c)).setWidth 16

section

variable {v : Volume} {c : ℕ}

/-- The entry of an addressable cluster lies in a sector of the FAT. -/
theorem Volume.Addressable.entrySector_lt (hc : v.Addressable c) :
    v.entrySector c < v.fatSizeSectors.toNat := by
  have hlt := hc.lt
  unfold Volume.clusters at hlt
  unfold Volume.entrySector
  apply Nat.div_lt_of_lt_mul
  rw [Nat.mul_comm v.bytesPerSector.toNat]
  omega

/-- Both bytes of the entry lie in that sector. -/
theorem MountedVolume.entryByte_lt (h : MountedVolume v) (hc : v.Addressable c) :
    v.entryByte c + 1 < 512 := by
  have hdiv := Nat.div_add_mod (2 * c) v.bytesPerSector.toNat
  have hlt := Nat.mod_lt (2 * c) h.bytesPerSector_pos
  have hle := Nat.mod_le (2 * c) v.bytesPerSector.toNat
  unfold Volume.entryByte
  rcases hc.sector with hb | hsmall
  · rcases Nat.lt_or_ge v.bytesPerSector.toNat 512 with hb' | hb'
    · omega
    · obtain hb'' : v.bytesPerSector.toNat = 512 := by omega
      rw [hb''] at *
      omega
  · omega

/-- Entries of different clusters in one sector do not overlap. -/
theorem Volume.entryByte_apart {c' : ℕ} (hne : c ≠ c')
    (hsector : v.entrySector c = v.entrySector c') :
    v.entryByte c + 2 ≤ v.entryByte c' ∨ v.entryByte c' + 2 ≤ v.entryByte c := by
  have hc := Nat.div_add_mod (2 * c) v.bytesPerSector.toNat
  have hc' := Nat.div_add_mod (2 * c') v.bytesPerSector.toNat
  unfold Volume.entrySector at hsector
  unfold Volume.entryByte
  rw [hsector] at hc
  generalize v.bytesPerSector.toNat * (2 * c' / v.bytesPerSector.toNat) = q at *
  omega

/-- A sector number tells which sector of a copy it is. -/
theorem Volume.sector_of_copy (v : Volume) {i j m n : ℕ} (hi : i < v.fatSizeSectors.toNat)
    (hj : j < v.fatSizeSectors.toNat)
    (heq : m * v.fatSizeSectors.toNat + i = n * v.fatSizeSectors.toNat + j) : i = j := by
  have hmod := congrArg (· % v.fatSizeSectors.toNat) heq
  simpa only [Nat.mul_add_mod_of_lt hi, Nat.mul_add_mod_of_lt hj] using hmod

/-- Different FAT copies keep an entry in different sectors. -/
theorem Volume.entryOffset_inj (hc : v.Addressable c) {i j : ℕ} :
    v.entryOffset i c = v.entryOffset j c ↔ i = j := by
  have hpos := hc.entrySector_lt
  unfold Volume.entryOffset
  constructor
  · intro h
    exact Nat.eq_of_mul_eq_mul_right (by omega : 0 < v.fatSizeSectors.toNat) (by omega)
  · rintro rfl
    rfl

/-- The entries lie in front of the root directory. -/
theorem Volume.entryOffset_lt (hc : v.Addressable c) {copy : ℕ} (hcopy : copy < v.numFats.toNat) :
    v.entryOffset copy c < v.rootOffset := by
  have hlt := hc.entrySector_lt
  have hle : (copy + 1) * v.fatSizeSectors.toNat ≤ v.numFats.toNat * v.fatSizeSectors.toNat :=
    Nat.mul_le_mul_right _ hcopy
  unfold Volume.entryOffset Volume.rootOffset
  rw [Nat.add_mul] at hle
  omega

/-- The root directory starts below sector `2 ^ 31`. -/
theorem MountedVolume.rootOffset_lt (h : MountedVolume v) : v.rootOffset < 2 ^ 31 := by
  have hle : v.rootOffset ≤ 255 * 65535 :=
    Nat.mul_le_mul (by have := h.numFats_lt; omega) (by have := h.fatSizeSectors_lt; omega)
  omega

/-- There are fewer than `2 ^ 31` clusters. -/
theorem MountedVolume.clusters_lt (h : MountedVolume v) : v.clusters < 2 ^ 31 := by
  have hle : v.fatSizeSectors.toNat * v.bytesPerSector.toNat ≤ (2 ^ 16 - 1) * (2 ^ 16 - 1) :=
    Nat.mul_le_mul (by have := h.fatSizeSectors_lt; omega) (by have := h.bytesPerSector_lt; omega)
  unfold Volume.clusters
  omega

/-! ### The code's arithmetic -/

/-- Doubling a cluster number does not wrap. -/
theorem toNat_twice {n : ℕ} (hn : n < 2 ^ 31) : (BitVec.ofNat 32 n * 2#32).toNat = 2 * n := by
  rw [BitVec.toNat_mul, BitVec.toNat_ofNat, BitVec.toNat_ofNat]
  omega

/-- The sector of an entry, computed without wrapping. -/
theorem MountedVolume.sectorIndex_eq (h : MountedVolume v) (hc : c < v.clusters) :
    sectorIndex v (BitVec.ofNat 32 c) = BitVec.ofNat 32 (v.entrySector c) := by
  have hlt := h.clusters_lt
  have hle := Nat.div_le_self (2 * c) v.bytesPerSector.toNat
  apply BitVec.eq_of_toNat_eq
  unfold sectorIndex Volume.entrySector
  rw [BitVec.toNat_udiv, toNat_twice (by omega), BitVec.toNat_ofNat, Nat.mod_eq_of_lt (by omega)]

/-- The place of an entry in its sector, computed without wrapping. -/
theorem MountedVolume.offsetInSector_eq (h : MountedVolume v) (hc : c < v.clusters) :
    (offsetInSector v (BitVec.ofNat 32 c)).toNat = v.entryByte c := by
  have hlt := h.clusters_lt
  unfold offsetInSector Volume.entryByte
  rw [BitVec.toNat_umod, toNat_twice (by omega)]

/-- The address of the sector of an entry in a copy of the FAT. -/
theorem MountedVolume.copyLba_eq (h : MountedVolume v) (hc : c < v.clusters) (copy : ℕ) :
    v.fatStart + BitVec.ofNat 32 copy * v.fatSizeSectors + sectorIndex v (BitVec.ofNat 32 c) =
      v.lba (v.entryOffset copy c) := by
  rw [h.sectorIndex_eq hc]
  unfold Volume.lba Volume.entryOffset
  rw [BitVec.ofNat_add, BitVec.ofNat_mul, BitVec.ofNat_toNat, BitVec.setWidth_eq,
    BitVec.add_assoc]

/-- The access to an addressable entry stays in the buffer. -/
theorem MountedVolume.not_entryOverruns (h : MountedVolume v) (hc : v.Addressable c) :
    entryOverruns v (BitVec.ofNat 32 c) = false := by
  have hbyte := h.entryByte_lt hc
  have hpos := h.bytesPerSector_pos
  have hne : v.bytesPerSector ≠ 0#32 := by
    intro hzero
    rw [hzero] at hpos
    exact absurd hpos (by decide)
  unfold entryOverruns
  rw [h.offsetInSector_eq hc.lt, decide_eq_false_iff_not]
  rintro (hzero | hle)
  · exact hne hzero
  · omega

/-! ### Entries in a sector -/

/-- An entry that is set is read back. -/
theorem setEntry_word16 {sector : Sector} {i : ℕ} {value : U16} (hi : i + 1 < 512) :
    (word16 (setEntry sector i value) i).setWidth 16 = value := by
  unfold word16 setEntry
  rw [Buffer.byte_set_of_ne (by omega), Buffer.byte_set (by omega), Buffer.byte_set (by omega),
    if_pos rfl, if_pos rfl]
  ext k hk
  simp
  grind

/-- Setting an entry keeps the words apart from it. -/
theorem setEntry_word16_of_apart {sector : Sector} {i j : ℕ} {value : U16}
    (h : i + 2 ≤ j ∨ j + 2 ≤ i) : word16 (setEntry sector i value) j = word16 sector j := by
  unfold word16 setEntry
  rw [Buffer.byte_set_of_ne (by omega), Buffer.byte_set_of_ne (by omega),
    Buffer.byte_set_of_ne (by omega), Buffer.byte_set_of_ne (by omega)]

end

/-! ### What changes between two disks -/

/-- The copies of the FAT are the same. -/
def SameCopies (v : Volume) (d : Disk) : Prop :=
  ∀ copy < v.numFats.toNat, ∀ i < v.fatSizeSectors.toNat,
    d (v.lba (copy * v.fatSizeSectors.toNat + i)) = d (v.lba i)

/-- Sector `k` belongs to the root directory (`none`), or to a cluster. -/
def Volume.Holds (v : Volume) : Option ℕ → ℕ → Prop
  | none, k => v.rootOffset ≤ k ∧ k < v.dataOffset
  | some c, k => ∃ s < v.sectorsPerCluster.toNat, k = v.clusterOffset c s

/-- Only the clusters in `S` have changed, in their entries or in their data, and the root
directory if `S` has `none`. -/
structure ChangesOnly (v : Volume) (S : Set (Option ℕ)) (d d' : Disk) : Prop where
  entry : ∀ copy < v.numFats.toNat, ∀ c, v.Addressable c → some c ∉ S →
    entryAt v d' copy c = entryAt v d copy c
  sector : ∀ k, v.rootOffset ≤ k → k < 2 ^ 32 → (∀ x ∈ S, ¬ v.Holds x k) →
    d' (v.lba k) = d (v.lba k)
  copies : SameCopies v d → SameCopies v d'

namespace ChangesOnly

variable {v : Volume} {S T : Set (Option ℕ)} {d d' d'' : Disk}

/-- A disk that stays as it is changes nothing. -/
theorem refl (S : Set (Option ℕ)) (d : Disk) : ChangesOnly v S d d :=
  ⟨fun _ _ _ _ _ => rfl, fun _ _ _ _ => rfl, fun h => h⟩

/-- Changes one after the other. -/
theorem trans (h : ChangesOnly v S d d') (h' : ChangesOnly v S d' d'') : ChangesOnly v S d d'' where
  entry copy hcopy c hc hS := (h'.entry copy hcopy c hc hS).trans (h.entry copy hcopy c hc hS)
  sector k hk hk' hS := (h'.sector k hk hk' hS).trans (h.sector k hk hk' hS)
  copies hsame := h'.copies (h.copies hsame)

/-- What changes some clusters only changes those of a larger set only. -/
theorem mono (h : ChangesOnly v S d d') (hST : S ⊆ T) : ChangesOnly v T d d' where
  entry copy hcopy c hc hT := h.entry copy hcopy c hc fun hS => hT (hST hS)
  sector k hk hk' hT := h.sector k hk hk' fun x hx => hT x (hST hx)
  copies := h.copies

end ChangesOnly

section

variable {v : Volume} {c : ℕ}

/-- The sectors that a cluster or the root directory holds lie behind the FAT. -/
theorem Volume.rootOffset_le_of_holds {x : Option ℕ} {k : ℕ} (h : v.Holds x k) :
    v.rootOffset ≤ k := by
  cases x with
  | none => exact h.1
  | some c =>
    obtain ⟨s, _, rfl⟩ := h
    unfold Volume.clusterOffset Volume.dataOffset
    omega

/-- Writing only to the sectors of a cluster, or of the root directory, leaves the FAT alone. -/
theorem MountedVolume.changesOnly_of_holds (h : MountedVolume v) {x : Option ℕ} {d d' : Disk}
    (hd : ∀ k < 2 ^ 32, ¬ v.Holds x k → d' (v.lba k) = d (v.lba k)) : ChangesOnly v {x} d d' := by
  have hroot := h.rootOffset_lt
  have hfat : ∀ k < v.rootOffset, d' (v.lba k) = d (v.lba k) := by
    intro k hk
    apply hd k (by omega)
    intro hx
    exact absurd (v.rootOffset_le_of_holds hx) (by omega)
  constructor
  · intro copy hcopy c hc _
    unfold entryAt
    rw [hfat _ (v.entryOffset_lt hc hcopy)]
  · intro k _ hk hx
    exact hd k hk (hx x rfl)
  · intro hsame copy hcopy i hi
    have hle : (copy + 1) * v.fatSizeSectors.toNat ≤ v.rootOffset :=
      Nat.mul_le_mul_right _ hcopy
    rw [Nat.add_mul] at hle
    rw [hfat _ (by omega), hfat _ (by omega), hsame copy hcopy i hi]

/-! ### Reading and writing an entry -/

/-- `fat_read_entry` reads the first FAT copy, and changes nothing. -/
theorem fatReadEntry_disk {s : Fat16 Disk} (h : MountedVolume s.vol) (hc : s.vol.Addressable c) :
    fatReadEntry disk (BitVec.ofNat 32 c) s = (entryAt s.vol s.dev 0 c, s) := by
  have hlba := h.copyLba_eq hc.lt 0
  rw [BitVec.zero_mul, BitVec.add_zero] at hlba
  unfold fatReadEntry entryAt
  rw [h.not_entryOverruns hc, h.offsetInSector_eq hc.lt, hlba, Bool.or_false]
  rfl

/-- The disk after `fat_write_entry`. -/
def putEntry (v : Volume) (c : ℕ) (value : U16) (d : Disk) : Disk :=
  writeCopies disk v (BitVec.ofNat 32 c) value v.numFats.toNat 0#32 d

/-- `fat_write_entry` puts the entry into all copies. -/
theorem fatWriteEntry_disk {s : Fat16 Disk} (h : MountedVolume s.vol) (hc : s.vol.Addressable c)
    (value : U16) : fatWriteEntry disk (BitVec.ofNat 32 c) value s =
      { s with dev := putEntry s.vol c value s.dev } := by
  unfold fatWriteEntry putEntry
  rw [h.not_entryOverruns hc, Bool.or_false]

/-- One turn of the loop of `fat_write_entry`. -/
theorem writeCopies_succ (h : MountedVolume v) (hc : c < v.clusters) (value : U16)
    (turns copy : ℕ) (d : Disk) :
    writeCopies disk v (BitVec.ofNat 32 c) value (turns + 1) (BitVec.ofNat 32 copy) d =
      writeCopies disk v (BitVec.ofNat 32 c) value turns (BitVec.ofNat 32 (copy + 1))
        (Function.update d (v.lba (v.entryOffset copy c))
          (setEntry (d (v.lba (v.entryOffset copy c))) (v.entryByte c) value)) := by
  rw [BitVec.ofNat_add, ← h.copyLba_eq hc, ← h.offsetInSector_eq hc]
  rfl

/-- A sector that keeps no copy of the entry is left alone. -/
theorem writeCopies_of_ne (h : MountedVolume v) (hc : v.Addressable c) {value : U16}
    {turns copy k : ℕ} (hend : copy + turns ≤ v.numFats.toNat) (hk : k < 2 ^ 32) {d : Disk}
    (hne : ∀ j, copy ≤ j → j < copy + turns → k ≠ v.entryOffset j c) :
    writeCopies disk v (BitVec.ofNat 32 c) value turns (BitVec.ofNat 32 copy) d (v.lba k) =
      d (v.lba k) := by
  induction turns generalizing copy d with
  | zero => rfl
  | succ turns ih =>
    have hroot := h.rootOffset_lt
    have hlt : v.entryOffset copy c < v.rootOffset := v.entryOffset_lt hc (by omega)
    rw [writeCopies_succ h hc.lt, ih (by omega) fun j hj hj' => hne j (by omega) (by omega)]
    apply Function.update_of_ne
    rw [Ne, v.lba_inj hk (by omega)]
    exact hne copy (by omega) (by omega)

/-- Each copy of the entry is replaced. -/
theorem writeCopies_self (h : MountedVolume v) (hc : v.Addressable c) {value : U16}
    {turns copy j : ℕ} (hend : copy + turns ≤ v.numFats.toNat) (hj : copy ≤ j)
    (hj' : j < copy + turns) {d : Disk} :
    writeCopies disk v (BitVec.ofNat 32 c) value turns (BitVec.ofNat 32 copy) d
        (v.lba (v.entryOffset j c)) =
      setEntry (d (v.lba (v.entryOffset j c))) (v.entryByte c) value := by
  induction turns generalizing copy d with
  | zero => omega
  | succ turns ih =>
    have hroot := h.rootOffset_lt
    have hltj : v.entryOffset j c < v.rootOffset := v.entryOffset_lt hc (by omega)
    have hlt : v.entryOffset copy c < v.rootOffset := v.entryOffset_lt hc (by omega)
    rw [writeCopies_succ h hc.lt]
    rcases Nat.eq_or_lt_of_le hj with rfl | hgt
    · rw [writeCopies_of_ne h hc (by omega) (by omega), Function.update_self]
      intro i hi _
      rw [Ne, v.entryOffset_inj hc]
      omega
    · rw [ih (by omega) (by omega) (by omega), Function.update_of_ne]
      rw [Ne, v.lba_inj (by omega) (by omega), v.entryOffset_inj hc]
      omega

/-- Putting an entry keeps all other sectors. -/
theorem putEntry_of_ne (h : MountedVolume v) (hc : v.Addressable c) {value : U16} {k : ℕ}
    (hk : k < 2 ^ 32) {d : Disk} (hne : ∀ j < v.numFats.toNat, k ≠ v.entryOffset j c) :
    putEntry v c value d (v.lba k) = d (v.lba k) :=
  writeCopies_of_ne h hc (by omega) hk fun j _ hj => hne j (by omega)

/-- Putting an entry sets it in the sector of each copy. -/
theorem putEntry_self (h : MountedVolume v) (hc : v.Addressable c) {value : U16} {j : ℕ}
    (hj : j < v.numFats.toNat) {d : Disk} :
    putEntry v c value d (v.lba (v.entryOffset j c)) =
      setEntry (d (v.lba (v.entryOffset j c))) (v.entryByte c) value :=
  writeCopies_self h hc (by omega) (by omega) (by omega)

/-- The entry that was written has the new value, in every copy. -/
theorem entryAt_putEntry_self (h : MountedVolume v) (hc : v.Addressable c) {value : U16}
    {copy : ℕ} (hcopy : copy < v.numFats.toNat) {d : Disk} :
    entryAt v (putEntry v c value d) copy c = value := by
  unfold entryAt
  rw [putEntry_self h hc hcopy, setEntry_word16 (h.entryByte_lt hc)]

/-- The other entries keep their values. -/
theorem entryAt_putEntry_of_ne (h : MountedVolume v) (hc : v.Addressable c) {value : U16}
    {copy c' : ℕ} (hcopy : copy < v.numFats.toNat) (hc' : v.Addressable c') (hne : c' ≠ c)
    {d : Disk} : entryAt v (putEntry v c value d) copy c' = entryAt v d copy c' := by
  have hroot := h.rootOffset_lt
  have hlt := v.entryOffset_lt hc' hcopy
  unfold entryAt
  by_cases hex : ∃ j < v.numFats.toNat, v.entryOffset copy c' = v.entryOffset j c
  · obtain ⟨j, hj, heq⟩ := hex
    have hsector : v.entrySector c = v.entrySector c' :=
      (v.sector_of_copy hc'.entrySector_lt hc.entrySector_lt heq).symm
    rw [heq, putEntry_self h hc hj, setEntry_word16_of_apart]
    exact v.entryByte_apart hne.symm hsector
  · rw [putEntry_of_ne h hc (by omega)]
    intro j hj heq
    exact hex ⟨j, hj, heq⟩

/-- Putting an entry keeps the copies of the FAT the same. -/
theorem putEntry_sameCopies (h : MountedVolume v) (hc : v.Addressable c) {value : U16} {d : Disk}
    (hd : SameCopies v d) : SameCopies v (putEntry v c value d) := by
  have hroot := h.rootOffset_lt
  have hsector := hc.entrySector_lt
  intro copy hcopy i hi
  have hle : (copy + 1) * v.fatSizeSectors.toNat ≤ v.rootOffset := Nat.mul_le_mul_right _ hcopy
  rw [Nat.add_mul] at hle
  by_cases heq : i = v.entrySector c
  · have hzero : v.lba i = v.lba (v.entryOffset 0 c) := by
      unfold Volume.entryOffset
      rw [Nat.zero_mul, Nat.zero_add, heq]
    have hcopyLba : v.lba (copy * v.fatSizeSectors.toNat + i) = v.lba (v.entryOffset copy c) := by
      unfold Volume.entryOffset
      rw [heq]
    have hsame := hd copy hcopy i hi
    rw [hzero, hcopyLba] at hsame ⊢
    rw [putEntry_self h hc hcopy, putEntry_self h hc (by omega), hsame]
  · have hne : ∀ m j, m * v.fatSizeSectors.toNat + i ≠ v.entryOffset j c := by
      intro m j hmj
      exact heq (v.sector_of_copy hi hsector hmj)
    have hzero := hne 0
    rw [Nat.zero_mul, Nat.zero_add] at hzero
    rw [putEntry_of_ne h hc (by omega) fun j _ => hne copy j,
      putEntry_of_ne h hc (by omega) fun j _ => hzero j, hd copy hcopy i hi]

/-- Writing an entry changes nothing but its cluster. -/
theorem putEntry_changesOnly (h : MountedVolume v) (hc : v.Addressable c) (value : U16)
    (d : Disk) : ChangesOnly v {some c} d (putEntry v c value d) := by
  constructor
  · intro copy hcopy c' hc' hne
    apply entryAt_putEntry_of_ne h hc hcopy hc'
    rintro rfl
    exact hne rfl
  · intro k hk hk' _
    apply putEntry_of_ne h hc hk'
    intro j hj
    have hlt := v.entryOffset_lt hc hj
    omega
  · exact putEntry_sameCopies h hc

/-! ### Allocating a cluster -/

/-- A state from which the code's steps on a volume lead to another. -/
structure Follows {σ : Type} (s s' : Fat16 σ) : Prop where
  vol : s'.vol = s.vol
  mounted : s'.mounted = s.mounted
  overrun : s'.overrun = false → s.overrun = false

/-- A state follows itself. -/
theorem Follows.refl {σ : Type} (s : Fat16 σ) : Follows s s := ⟨rfl, rfl, fun h => h⟩

/-- States that follow one another. -/
theorem Follows.trans {σ : Type} {s s' s'' : Fat16 σ} (h : Follows s s') (h' : Follows s' s'') :
    Follows s s'' :=
  ⟨h'.vol.trans h.vol, h'.mounted.trans h.mounted, fun ho => h.overrun (h'.overrun ho)⟩

/-- `fat_read_entry` keeps the fields of the volume and the mount. -/
theorem fatReadEntry_follows {σ : Type} {a : Ata σ} {r : U32} {s : Fat16 σ} :
    Follows s (fatReadEntry a r s).2 :=
  ⟨rfl, rfl, fun ho => (Bool.or_eq_false_iff.mp ho).1⟩

/-- `fat_write_entry` keeps the fields of the volume and the mount. -/
theorem fatWriteEntry_follows {σ : Type} {a : Ata σ} {r : U32} {value : U16} {s : Fat16 σ} :
    Follows s (fatWriteEntry a r value s) :=
  ⟨rfl, rfl, fun ho => (Bool.or_eq_false_iff.mp ho).1⟩

/-- The loop of `fat_alloc_cluster` keeps the fields of the volume and the mount. -/
theorem allocClusterFrom_follows {σ : Type} {a : Ata σ} {turns : ℕ} {r : U32} {s : Fat16 σ} :
    Follows s (allocClusterFrom a turns r s).2 := by
  induction turns generalizing r s with
  | zero => exact .refl s
  | succ turns ih =>
    unfold allocClusterFrom
    dsimp only
    split_ifs
    · exact fatReadEntry_follows.trans fatWriteEntry_follows
    · exact fatReadEntry_follows.trans ih
    · exact .refl s

/-- `fat_alloc_cluster` keeps the fields of the volume and the mount. -/
theorem fatAllocCluster_follows {σ : Type} {a : Ata σ} {r : U32} {s s' : Fat16 σ}
    (hr : fatAllocCluster a s = (r, s')) : Follows s s' := by
  have hsecond : (fatAllocCluster a s).2 = s' := congrArg Prod.snd hr
  rw [← hsecond]
  exact allocClusterFrom_follows

/-- With sectors of more than 512 bytes, the entry of cluster 256 is behind the buffer. -/
theorem fatReadEntry_overrun {s : Fat16 Disk} (hbig : 512 < s.vol.bytesPerSector.toNat) :
    (fatReadEntry disk (BitVec.ofNat 32 256) s).2.overrun = true := by
  have hbyte : (offsetInSector s.vol (BitVec.ofNat 32 256)).toNat = 512 := by
    unfold offsetInSector
    rw [BitVec.toNat_umod, toNat_twice (by omega), Nat.mod_eq_of_lt (by omega)]
  have hover : entryOverruns s.vol (BitVec.ofNat 32 256) = true := by
    unfold entryOverruns
    rw [hbyte]
    simp
  unfold fatReadEntry
  simp only [hover, Bool.or_true]

/-- A search that comes to a cluster and never leaves the buffer may read its entry. -/
theorem addressable_of_read {s s' : Fat16 Disk} (hc : c < s.vol.clusters)
    (hsmall : s.vol.bytesPerSector.toNat ≤ 512 ∨ c ≤ 256)
    (hbuf : s.vol.bytesPerSector.toNat ≤ 512 ∨ s'.overrun = false)
    (hfollows : Follows (fatReadEntry disk (BitVec.ofNat 32 c) s).2 s') :
    s.vol.Addressable c := by
  refine ⟨hc, ?_⟩
  rcases Nat.lt_or_ge 512 s.vol.bytesPerSector.toNat with hbig | hle
  · rcases Nat.lt_or_ge c 256 with hc' | hc'
    · exact Or.inr hc'
    · obtain rfl : c = 256 := by omega
      rcases hbuf with hle | hfalse
      · exact absurd hle (by omega)
      · have hread := hfollows.overrun hfalse
        rw [fatReadEntry_overrun hbig] at hread
        exact absurd hread (by decide)
  · exact Or.inl hle

/-- The entries from cluster `lo` up to `hi` are in use. -/
def InUse (v : Volume) (d : Disk) (lo hi : ℕ) : Prop :=
  ∀ m, lo ≤ m → m < hi → entryAt v d 0 m ≠ 0#16

/-- The search from cluster `c` on fails and changes nothing when all clusters from there on are in
use, and else marks the first free one. -/
theorem allocClusterFrom_cases {turns : ℕ} {s s' : Fat16 Disk} {r : U32}
    (h : MountedVolume s.vol) (hc : c ≤ s.vol.clusters + 2) (hend : s.vol.clusters ≤ c + turns)
    (hsmall : s.vol.bytesPerSector.toNat ≤ 512 ∨ c ≤ 256)
    (hbuf : s.vol.bytesPerSector.toNat ≤ 512 ∨ s'.overrun = false)
    (hr : allocClusterFrom disk turns (BitVec.ofNat 32 c) s = (r, s')) :
    (r = 0#32 ∧ s' = s ∧ InUse s.vol s.dev c s.vol.clusters) ∨
      ∃ n, r = BitVec.ofNat 32 n ∧ c ≤ n ∧ s.vol.Addressable n ∧ entryAt s.vol s.dev 0 n = 0#16 ∧
        InUse s.vol s.dev c n ∧ s' = { s with dev := putEntry s.vol n 0xFFFF#16 s.dev } := by
  induction turns generalizing c with
  | zero =>
    obtain ⟨rfl, rfl⟩ := Prod.mk.inj hr
    exact Or.inl ⟨rfl, rfl, fun m hm hm' => by omega⟩
  | succ turns ih =>
    have hlt := h.clusters_lt
    unfold allocClusterFrom at hr
    dsimp only at hr
    have hmax : BitVec.ofNat 32 c < maxCluster s.vol ↔ c < s.vol.clusters := by
      rw [BitVec.lt_def, h.toNat_maxCluster, BitVec.toNat_ofNat, Nat.mod_eq_of_lt (by omega)]
    by_cases hcmax : c < s.vol.clusters
    · rw [if_pos (hmax.mpr hcmax)] at hr
      have haddr : s.vol.Addressable c := by
        apply addressable_of_read hcmax hsmall hbuf
        change Follows _ (r, s').2
        rw [← hr]
        split_ifs
        · exact fatWriteEntry_follows
        · exact allocClusterFrom_follows
      rw [fatReadEntry_disk h haddr] at hr
      dsimp only at hr
      by_cases hfree : entryAt s.vol s.dev 0 c = 0#16
      · rw [if_pos hfree, fatWriteEntry_disk h haddr] at hr
        obtain ⟨rfl, rfl⟩ := Prod.mk.inj hr
        exact Or.inr ⟨c, rfl, le_refl c, haddr, hfree, fun m hm hm' => by omega, rfl⟩
      · rw [if_neg hfree, ← BitVec.ofNat_add] at hr
        have hextend : ∀ hi, InUse s.vol s.dev (c + 1) hi → InUse s.vol s.dev c hi := by
          intro hi hused m hm hm'
          rcases Nat.eq_or_lt_of_le hm with rfl | hgt
          · exact hfree
          · exact hused m hgt hm'
        have hsector := haddr.sector
        rcases ih (by omega) (by omega) (by omega) hr with ⟨hr0, hs', hused⟩ | ⟨n, hn, hcn, hrest⟩
        · exact Or.inl ⟨hr0, hs', hextend _ hused⟩
        · obtain ⟨hn', hzero, hused, hs'⟩ := hrest
          exact Or.inr ⟨n, hn, by omega, hn', hzero, hextend _ hused, hs'⟩
    · rw [if_neg (hmax.not.mpr hcmax)] at hr
      obtain ⟨rfl, rfl⟩ := Prod.mk.inj hr
      exact Or.inl ⟨rfl, rfl, fun m hm hm' => by omega⟩

/-- `fat_alloc_cluster` fails and changes nothing when all clusters are in use, and else marks the
first free one. -/
theorem fatAllocCluster_cases {s s' : Fat16 Disk} {r : U32} (h : MountedVolume s.vol)
    (hbuf : s.vol.bytesPerSector.toNat ≤ 512 ∨ s'.overrun = false)
    (hr : fatAllocCluster disk s = (r, s')) :
    (r = 0#32 ∧ s' = s ∧ InUse s.vol s.dev 2 s.vol.clusters) ∨
      ∃ n, r = BitVec.ofNat 32 n ∧ 2 ≤ n ∧ s.vol.Addressable n ∧ entryAt s.vol s.dev 0 n = 0#16 ∧
        InUse s.vol s.dev 2 n ∧ s' = { s with dev := putEntry s.vol n 0xFFFF#16 s.dev } := by
  have hmax := h.toNat_maxCluster
  exact allocClusterFrom_cases h (by omega) (by omega) (by omega) hbuf hr

end

end AlderKernel.Fs
