import AlderKernel.Fs.FaultyDisk

/-!
# Disk errors and the FAT

`fat_read_entry` and `fat_write_entry` do not notice that a read has failed, and go on with what
is in the buffer. A call that needs a cluster can so be made to change any entry in use; a call
that needs none changes at most the entries under the slot of its directory entry.
-/

namespace AlderKernel.Fs

open Machine

/-- The FAT entries under slot `i` of a directory are zero, or as the new directory entry has
them. -/
def SlotHarmless (v : Volume) (d : Disk) (base : U32) (entry : DirEntry) (i : ℕ) : Prop :=
  ∀ copy < v.numFats.toNat, ∀ c < v.clusters,
    v.lba (v.entryOffset copy c) = base + BitVec.ofNat 32 (i / 16) → i % 16 * 32 ≤ v.entryByte c →
      v.entryByte c < i % 16 * 32 + 32 → entryAt v d copy c = 0#16 ∨
        entryAt v d copy c = (word16 entry (v.entryByte c - i % 16 * 32)).setWidth 16

/-- The calls that no pattern of failures makes change an entry in use: all entries of all copies
are free, or the call needs no cluster and the first slot that its directory entry may go to is
harmless. -/
def Harmless (v : Volume) (d : Disk) (call : Call) : Prop :=
  if call.needsCluster then ∀ copy < v.numFats.toNat, ∀ c < v.clusters, entryAt v d copy c = 0#16
  else ∀ i < 16 * call.sectors v, slotUsable (slotAt d (call.base v) i) = true →
    (∀ j < i, slotUsable (slotAt d (call.base v) j) = false) →
      SlotHarmless v d (call.base v) (call.entry 0#32) i

/-! ### Calls that need no cluster -/

section

variable {v : Volume} {d : Disk} {base : U32} {entry : DirEntry} {i : ℕ}

/-- The entries under the slot become those of the directory entry, the others stay. -/
theorem entryAt_putSlot (h : MountedVolume v) (hbytes : v.bytesPerSector = 512#32) {copy c : ℕ}
    (hc : c < v.clusters) : entryAt v (putSlot d base i entry) copy c =
      if v.lba (v.entryOffset copy c) = base + BitVec.ofNat 32 (i / 16) ∧
          i % 16 * 32 ≤ v.entryByte c ∧ v.entryByte c < i % 16 * 32 + 32 then
        (word16 entry (v.entryByte c - i % 16 * 32)).setWidth 16
      else entryAt v d copy c := by
  have heven : v.entryByte c % 2 = 0 := by
    unfold Volume.entryByte
    rw [hbytes]
    show 2 * c % 512 % 2 = 0
    omega
  have hlt := h.entryByte_lt (addressable_of_lt hbytes hc)
  unfold entryAt putSlot
  by_cases hsector : v.lba (v.entryOffset copy c) = base + BitVec.ofNat 32 (i / 16)
  · rw [hsector, Function.update_self]
    unfold word16
    rw [Buffer.byte_paste (by omega), Buffer.byte_paste hlt]
    by_cases hin : i % 16 * 32 ≤ v.entryByte c ∧ v.entryByte c < i % 16 * 32 + 32
    · rw [if_pos (by omega), if_pos (by omega), if_pos ⟨rfl, hin⟩,
        show v.entryByte c + 1 - i % 16 * 32 = v.entryByte c - i % 16 * 32 + 1 by omega]
    · rw [if_neg (by omega), if_neg (by omega), if_neg fun hand => hin hand.2]
  · rw [Function.update_of_ne hsector, if_neg fun hand => hsector hand.1]

/-- Putting a directory entry in a slot keeps the entries in use exactly when the slot is
harmless. -/
theorem keepsUsed_putSlot_iff (h : MountedVolume v) (hbytes : v.bytesPerSector = 512#32) :
    KeepsUsed v d (putSlot d base i entry) ↔ SlotHarmless v d base entry i := by
  constructor
  · intro hkeeps copy hcopy c hc hsector hlow hhigh
    by_cases hfree : entryAt v d copy c = 0#16
    · exact .inl hfree
    · have hsame := hkeeps copy hcopy c hc hfree
      rw [entryAt_putSlot h hbytes hc, if_pos ⟨hsector, hlow, hhigh⟩] at hsame
      exact .inr hsame.symm
  · intro hharmless copy hcopy c hc hused
    rw [entryAt_putSlot h hbytes hc]
    split_ifs with hin
    · exact ((hharmless copy hcopy c hc hin.1 hin.2.1 hin.2.2).resolve_left hused).symm
    · rfl

/-- Without failures a directory entry is written as on the disk. -/
theorem writeEntryInSectors_reliable {turns : ℕ} {n : ℕ} :
    (writeEntryInSectors (faultyDisk ⟨fun _ _ => none, fun _ _ => false⟩) base entry turns
      (BitVec.ofNat 32 i) (d, n)).2.1 =
        (writeEntryInSectors disk base entry turns (BitVec.ofNat 32 i) d).2 := by
  induction turns generalizing i n with
  | zero => rfl
  | succ turns ih =>
    have hread : (faultyDisk ⟨fun _ _ => none, fun _ _ => false⟩).readSector
        (base + BitVec.ofNat 32 i) (d, n) =
        ((true, d (base + BitVec.ofNat 32 i)), d, n + 1) := rfl
    rw [writeEntryInSectors_succ, writeEntryInSectors, hread]
    dsimp only
    rw [if_neg (not_not_intro rfl)]
    cases freeSlot (d (base + BitVec.ofNat 32 i)) with
    | some j => rfl
    | none =>
      dsimp only
      rw [← BitVec.ofNat_add]
      exact ih

/-- A call that needs no cluster writes its directory entry and does nothing else. -/
theorem Call.run_noCluster {call : Call} (hneeds : call.needsCluster = false) (f : Faults) :
    call.run (faultyDisk f) ⟨v, true, (d, 0), false⟩ =
      let w := writeEntryInSectors (faultyDisk f) (call.base v) (call.entry 0#32) (call.sectors v)
        0#32 (d, 0)
      some (if w.1 then .file else .failed, ⟨v, true, w.2, false⟩) := by
  cases call with
  | mkdirRoot name ext => exact absurd hneeds (by simp [needsCluster])
  | createFileRoot name ext data size =>
    obtain rfl : size = 0#32 := by simpa [needsCluster] using hneeds
    rfl
  | createFileInDir dirCluster name ext data size =>
    obtain rfl : size = 0#32 := by simpa [needsCluster] using hneeds
    rfl

/-- A call that needs no cluster keeps the entries in use, whatever fails, exactly when the first
slot that its directory entry may go to is harmless. -/
theorem Call.survives_noCluster_iff {call : Call} (h : MountedVolume v)
    (hbytes : v.bytesPerSector = 512#32) (hneeds : call.needsCluster = false) :
    (∀ f, Survives v d call f) ↔ ∀ i < 16 * call.sectors v,
      slotUsable (slotAt d (call.base v) i) = true →
        (∀ j < i, slotUsable (slotAt d (call.base v) j) = false) →
          SlotHarmless v d (call.base v) (call.entry 0#32) i := by
  have hcases := writeEntryInSectors_cases d (call.base v) (call.entry 0#32) (call.sectors v) 0
  constructor
  · intro hsurvives i hi husable hfirst
    obtain ⟨r, hr, hkeeps⟩ := hsurvives ⟨fun _ _ => none, fun _ _ => false⟩
    rw [Call.run_noCluster hneeds] at hr
    obtain rfl := Option.some.inj hr
    have hdisk : (writeEntryInSectors disk (call.base v) (call.entry 0#32) (call.sectors v)
        (BitVec.ofNat 32 0) d).2 = putSlot d (call.base v) i (call.entry 0#32) := by
      rcases hcases with ⟨-, hused⟩ | ⟨j, -, hj, hfree, hbefore, hput⟩
      · exact absurd (hused i (by omega) (by omega)) (by rw [husable]; decide)
      · obtain rfl : j = i := by
          rcases Nat.lt_trichotomy j i with hlt | heq | hgt
          · exact absurd (hfirst j hlt) (by rw [hfree]; decide)
          · exact heq
          · exact absurd (hbefore i (by omega) hgt) (by rw [husable]; decide)
        rw [hput]
    rw [← keepsUsed_putSlot_iff h hbytes, ← hdisk, ← writeEntryInSectors_reliable]
    exact hkeeps
  · intro hharmless f
    refine ⟨_, Call.run_noCluster hneeds f, ?_⟩
    show KeepsUsed v d (writeEntryInSectors (faultyDisk f) (call.base v) (call.entry 0#32)
      (call.sectors v) (BitVec.ofNat 32 0) (d, 0)).2.1
    rcases writeEntryInSectors_faulty f (call.base v) (call.entry 0#32) (call.sectors v) 0 (d, 0)
      with heq | heq
    · rw [heq]
      exact .refl v d
    · rw [heq]
      rcases hcases with ⟨hfail, -⟩ | ⟨i, -, hi, hfree, hbefore, hput⟩
      · rw [hfail]
        exact .refl v d
      · rw [hput]
        exact (keepsUsed_putSlot_iff h hbytes).mpr
          (hharmless i (by omega) hfree fun j hj => hbefore j (by omega) hj)

end

/-! ### Calls that need a cluster -/

/-- A sector of one byte again and again. -/
def fillSector (b : U8) : Sector := .ofFn fun _ => b

/-- The entry that such a sector shows. -/
def fillEntry (b : U8) : U16 := (word16 (fillSector b) 0).setWidth 16

/-- Every read fails and leaves a sector of the byte `b`, in which only the entry of cluster `t`
looks free; the first write to that cluster fails as well. -/
def Faults.target (v : Volume) (t : ℕ) (b : U8) : Faults where
  read _ lba := some <|
    if lba = v.lba (v.entryOffset 0 t) then setEntry (fillSector b) (v.entryByte t) 0#16
    else fillSector b
  write _ lba := lba = clusterToLba v (BitVec.ofNat 32 t)

section

variable {v : Volume} {d : Disk × ℕ} {b : U8} {t c copy i turns : ℕ} {value : U16}
  {s : Fat16 (Disk × ℕ)}

/-- The entries of a sector that is full of one byte. -/
theorem fillSector_word16 (hi : i + 1 < 512) :
    (word16 (fillSector b) i).setWidth 16 = fillEntry b := by
  unfold fillEntry word16 fillSector
  rw [Buffer.byte_ofFn (by omega), Buffer.byte_ofFn hi, Buffer.byte_ofFn (by omega),
    Buffer.byte_ofFn (by omega)]

/-- What a failed read of a FAT sector shows of the entries in it. -/
theorem target_entry (h : MountedVolume v) (hbytes : v.bytesPerSector = 512#32)
    (ht : t < v.clusters) (hc : c < v.clusters) (hfats : 0 < v.numFats.toNat) :
    (word16 (if v.lba (v.entryOffset 0 c) = v.lba (v.entryOffset 0 t) then
      setEntry (fillSector b) (v.entryByte t) 0#16 else fillSector b) (v.entryByte c)).setWidth 16 =
        if c = t then 0#16 else fillEntry b := by
  have haddr := addressable_of_lt hbytes hc
  have haddr' := addressable_of_lt hbytes ht
  have hroot := h.rootOffset_lt
  have hlt := v.entryOffset_lt haddr hfats
  have hlt' := v.entryOffset_lt haddr' hfats
  have hbyte := h.entryByte_lt haddr
  by_cases heq : c = t
  · subst heq
    rw [if_pos rfl, if_pos rfl, setEntry_word16 hbyte]
  · rw [if_neg heq]
    split_ifs with hsame
    · rw [v.lba_inj (by omega) (by omega)] at hsame
      have hsector := v.sector_of_copy haddr.entrySector_lt haddr'.entrySector_lt hsame
      rw [setEntry_word16_of_apart (v.entryByte_apart (Ne.symm heq) hsector.symm),
        fillSector_word16 hbyte]
    · exact fillSector_word16 hbyte

/-- The search passes over all clusters in front of `t`, and takes that one. -/
theorem allocClusterFrom_target (h : MountedVolume v) (hbytes : v.bytesPerSector = 512#32)
    (hfats : 0 < v.numFats.toNat) (hb : fillEntry b ≠ 0#16) (ht : t < v.clusters) (hct : c ≤ t)
    (hturns : t < c + turns) (hvol : s.vol = v) :
    ∃ s', allocClusterFrom (faultyDisk (.target v t b)) turns (BitVec.ofNat 32 c) s =
      (BitVec.ofNat 32 t,
        fatWriteEntry (faultyDisk (.target v t b)) (BitVec.ofNat 32 t) 0xFFFF#16 s') ∧
        s'.vol = v ∧ s'.mounted = s.mounted := by
  induction turns generalizing c s with
  | zero => omega
  | succ turns ih =>
    have hclusters := h.clusters_lt
    have hlt : BitVec.ofNat 32 c < maxCluster s.vol := by
      rw [hvol, BitVec.lt_def, h.toNat_maxCluster, BitVec.toNat_ofNat, Nat.mod_eq_of_lt (by omega)]
      omega
    have hlba := h.copyLba_eq (by omega : c < v.clusters) 0
    rw [BitVec.zero_mul, BitVec.add_zero] at hlba
    have hentry : (fatReadEntry (faultyDisk (.target v t b)) (BitVec.ofNat 32 c) s).1 =
        if c = t then 0#16 else fillEntry b := by
      unfold fatReadEntry
      dsimp only
      rw [hvol, hlba, h.offsetInSector_eq (by omega)]
      exact target_entry h hbytes ht (by omega) hfats
    unfold allocClusterFrom
    dsimp only
    rw [if_pos hlt, hentry]
    by_cases heq : c = t
    · subst heq
      rw [if_pos rfl, if_pos rfl]
      exact ⟨_, rfl, hvol, rfl⟩
    · rw [if_neg heq, if_neg hb, ← BitVec.ofNat_add]
      exact ih (by omega) (by omega) hvol

/-- The other entries of the sector that `fat_write_entry` writes are those that the failed read has
left. -/
theorem writeCopies_target (h : MountedVolume v) (hbytes : v.bytesPerSector = 512#32)
    (ht : t < v.clusters) (ht2 : 2 ≤ t) (hc : c < v.clusters) (hne : c ≠ t)
    (hsector : v.entrySector c = v.entrySector t) (hcopy : copy < v.numFats.toNat)
    (hend : i + turns ≤ v.numFats.toNat)
    (hdone : entryAt v d.1 copy c = fillEntry b ∨ i ≤ copy ∧ copy < i + turns) :
    entryAt v (writeCopies (faultyDisk (.target v t b)) v (BitVec.ofNat 32 t) value turns
      (BitVec.ofNat 32 i) d).1 copy c = fillEntry b := by
  induction turns generalizing i d with
  | zero => exact hdone.resolve_right (by omega)
  | succ turns ih =>
    have haddr := addressable_of_lt hbytes hc
    have haddr' := addressable_of_lt hbytes ht
    have hapart := v.entryByte_apart hne.symm hsector.symm
    have hbyte := h.entryByte_lt haddr
    have hroot := h.rootOffset_lt
    have hlt := v.entryOffset_lt haddr hcopy
    have hlt' := v.entryOffset_lt haddr' (by omega : i < v.numFats.toNat)
    obtain ⟨left, hread, hleft⟩ : ∃ left, (faultyDisk (.target v t b)).readSector
        (v.lba (v.entryOffset i t)) d = ((false, left), d.1, d.2 + 1) ∧
          (word16 left (v.entryByte c)).setWidth 16 = fillEntry b := by
      refine ⟨_, rfl, ?_⟩
      split_ifs
      · rw [setEntry_word16_of_apart hapart, fillSector_word16 hbyte]
      · exact fillSector_word16 hbyte
    have hwrite : (faultyDisk (.target v t b)).writeSector (v.lba (v.entryOffset i t))
        (setEntry left (v.entryByte t) value) (d.1, d.2 + 1) =
          (true, Function.update d.1 (v.lba (v.entryOffset i t))
            (setEntry left (v.entryByte t) value), d.2 + 2) := by
      refine if_neg ?_
      have hout := h.outsideFat_cluster haddr' ht2 0 h.sectorsPerCluster_pos _ hlt'
      rw [BitVec.add_zero] at hout
      simpa [Faults.target] using hout.symm
    unfold writeCopies
    dsimp only
    rw [h.copyLba_eq ht, hread, h.offsetInSector_eq ht, hwrite, ← BitVec.ofNat_add]
    refine ih (by omega) ?_
    dsimp only
    by_cases hnow : copy = i
    · left
      unfold entryAt
      have hsame : v.entryOffset copy c = v.entryOffset i t := by
        unfold Volume.entryOffset
        rw [hnow, hsector]
      rw [hsame, Function.update_self, setEntry_word16_of_apart hapart, hleft]
    · refine hdone.imp (fun hfill => ?_) fun hlater => ⟨by omega, by omega⟩
      have hother : v.entryOffset copy c ≠ v.entryOffset i t := by
        unfold Volume.entryOffset
        rw [hsector]
        intro heq
        exact hnow (Nat.eq_of_mul_eq_mul_right
          (by have := haddr.entrySector_lt; omega : 0 < v.fatSizeSectors.toNat) (by omega))
      unfold entryAt
      rw [Function.update_of_ne]
      · exact hfill
      · rwa [Ne, v.lba_inj (by omega) (by omega)]

/-- The first write to cluster `t` fails. -/
theorem target_writeSector (sector : Sector) :
    (faultyDisk (.target v t b)).writeSector (clusterToLba v (BitVec.ofNat 32 t)) sector d =
      (false, d.1, d.2 + 1) := if_pos (decide_eq_true rfl)

/-- So `write_file_data` gives up at once. -/
theorem writeFileData_target (h : MountedVolume v) (hvol : s.vol = v) (data : U32 → U8)
    (size : U32) :
    ∃ s', writeFileData (faultyDisk (.target v t b)) (BitVec.ofNat 32 t) data size s =
      some (false, s') ∧ s'.dev.1 = s.dev.1 := by
  obtain ⟨n, hn⟩ := Nat.exists_eq_add_of_lt h.sectorsPerCluster_pos
  obtain ⟨turns, hturns⟩ : ∃ turns, 2 ^ 32 = turns + 1 := ⟨2 ^ 32 - 1, by omega⟩
  have hdata (offset chunk : U32) : writeClusterData (faultyDisk (.target v t b)) data
      (clusterToLba v (BitVec.ofNat 32 t)) offset chunk v.sectorsPerCluster.toNat 0#32 0#32 s.dev =
        (false, s.dev.1, s.dev.2 + 1) := by
    rw [hn, Nat.zero_add, writeClusterData, BitVec.add_zero, target_writeSector]
    exact if_pos Bool.false_ne_true
  unfold writeFileData
  rw [hturns, writeClusters]
  dsimp only
  rw [hvol, hdata, if_pos Bool.false_ne_true]
  exact ⟨_, rfl, rfl⟩

/-- A call that needs a cluster does nothing but mark cluster `t`. -/
theorem Call.run_target {call : Call} {d : Disk} (h : MountedVolume v)
    (hbytes : v.bytesPerSector = 512#32) (hfats : 0 < v.numFats.toNat) (hb : fillEntry b ≠ 0#16)
    (ht : t < v.clusters) (ht2 : 2 ≤ t) (hneeds : call.needsCluster = true) :
    ∃ s' r, s'.vol = v ∧
      call.run (faultyDisk (.target v t b)) ⟨v, true, (d, 0), false⟩ = some r ∧
      r.2.dev.1 =
        (fatWriteEntry (faultyDisk (.target v t b)) (BitVec.ofNat 32 t) 0xFFFF#16 s').dev.1 := by
  have hmax := h.toNat_maxCluster
  obtain ⟨s', halloc, hvol, -⟩ : ∃ s', fatAllocCluster (faultyDisk (.target v t b))
      ⟨v, true, (d, 0), false⟩ = (BitVec.ofNat 32 t, fatWriteEntry (faultyDisk (.target v t b))
        (BitVec.ofNat 32 t) 0xFFFF#16 s') ∧ s'.vol = v ∧ s'.mounted = true :=
    allocClusterFrom_target h hbytes hfats hb ht ht2 (by rw [hmax]; omega) rfl
  have hne : BitVec.ofNat 32 t ≠ 0#32 := by
    have hlt := h.clusters_lt
    bv_omega
  have hstore (data : U32 → U8) (size : U32) (hsize : size ≠ 0#32) :
      ∃ s₂, storeFile (faultyDisk (.target v t b)) data size ⟨v, true, (d, 0), false⟩ =
        some (none, s₂) ∧ s₂.dev.1 =
          (fatWriteEntry (faultyDisk (.target v t b)) (BitVec.ofNat 32 t) 0xFFFF#16 s').dev.1 := by
    obtain ⟨s₂, hwrite, hdev⟩ := writeFileData_target (b := b) (t := t)
      (s := fatWriteEntry (faultyDisk (.target v t b)) (BitVec.ofNat 32 t) 0xFFFF#16 s') h hvol data
      size
    refine ⟨s₂, ?_, hdev⟩
    unfold storeFile
    dsimp only
    rw [if_pos (by bv_omega), halloc]
    dsimp only
    rw [if_neg hne, hwrite]
    rfl
  refine ⟨s', ?_⟩
  cases call with
  | mkdirRoot name ext =>
    refine ⟨_, hvol, rfl, ?_⟩
    unfold fat16MkdirRoot
    dsimp only
    rw [if_neg (not_not_intro rfl), halloc]
    dsimp only
    rw [if_neg hne, show (fatWriteEntry (faultyDisk (.target v t b)) (BitVec.ofNat 32 t) 0xFFFF#16
      s').vol = v from hvol, target_writeSector, if_pos Bool.false_ne_true]
  | createFileRoot name ext data size =>
    obtain ⟨s₂, hnone, hdev⟩ := hstore data size (by simpa [needsCluster] using hneeds)
    refine ⟨(.failed, s₂), hvol, ?_, hdev⟩
    rw [run, fat16CreateFileRoot, if_neg (not_not_intro rfl), hnone]
    rfl
  | createFileInDir dirCluster name ext data size =>
    obtain ⟨s₂, hnone, hdev⟩ := hstore data size (by simpa [needsCluster] using hneeds)
    refine ⟨(.failed, s₂), hvol, ?_, hdev⟩
    rw [run, fat16CreateFileInDir, if_neg (not_not_intro rfl), hnone]
    rfl

/-- Every sector of the FAT has room for the entry of a cluster next to a given one. -/
theorem exists_target (hbytes : v.bytesPerSector = 512#32) (hc : c < v.clusters) :
    ∃ t, 2 ≤ t ∧ t < v.clusters ∧ c ≠ t ∧ v.entrySector c = v.entrySector t := by
  unfold Volume.clusters at hc ⊢
  unfold Volume.entrySector
  rw [hbytes] at hc ⊢
  have hsize : (512#32).toNat = 512 := rfl
  rw [hsize] at hc ⊢
  by_cases hlast : c % 256 = 255
  · exact ⟨c - 1, by omega, by omega, by omega, by omega⟩
  · exact ⟨c / 256 * 256 + 255, by omega, by omega, by omega, by omega⟩

/-- An entry in use does not survive a call that needs a cluster. -/
theorem Call.not_survives {call : Call} {d : Disk} (h : MountedVolume v)
    (hbytes : v.bytesPerSector = 512#32) (hneeds : call.needsCluster = true)
    (hcopy : copy < v.numFats.toNat) (hc : c < v.clusters) (hused : entryAt v d copy c ≠ 0#16) :
    ∃ f, ¬ Survives v d call f := by
  obtain ⟨t, ht2, ht, hne, hsector⟩ := exists_target hbytes hc
  obtain ⟨b, hb, hother⟩ : ∃ b, fillEntry b ≠ 0#16 ∧ fillEntry b ≠ entryAt v d copy c := by
    by_cases hone : entryAt v d copy c = fillEntry 1#8
    · exact ⟨2#8, by decide, by rw [hone]; decide⟩
    · exact ⟨1#8, by decide, Ne.symm hone⟩
  obtain ⟨s', r, hvol, hr, hdev⟩ := Call.run_target h hbytes (by omega) hb ht ht2 hneeds
  refine ⟨.target v t b, ?_⟩
  rintro ⟨r', hr', hkeeps⟩
  obtain rfl := Option.some.inj (hr.symm.trans hr')
  have hsame := hkeeps copy hcopy c hc hused
  have hfill : entryAt v r.2.dev.1 copy c = fillEntry b := by
    rw [hdev]
    show entryAt v (writeCopies _ s'.vol _ _ s'.vol.numFats.toNat 0#32 s'.dev).1 copy c = _
    rw [hvol]
    exact writeCopies_target h hbytes ht ht2 hc hne hsector hcopy (by omega)
      (.inr ⟨by omega, by omega⟩)
  exact hother (hfill.symm.trans hsame)

end

/-- Disk errors and the FAT, for every mounted volume with sectors of 512 bytes and every content of
its disk: a call keeps the entries in use under all patterns of failures exactly when it is
harmless. Under a pattern in which the reads of FAT sectors succeed, every call does whose directory
is outside the FAT, on a volume whose FAT copies agree on the free clusters. -/
theorem diskErrors_harmless_iff {σ : Type} {a : Ata σ} {partitionLba : U32} {s s' : Fat16 σ}
    (hmount : fat16Mount a partitionLba s = (true, s')) (hbytes : s'.vol.bytesPerSector = 512#32)
    (d : Disk) (call : Call) :
    ((∀ f, Survives s'.vol d call f) ↔ Harmless s'.vol d call) ∧
      ∀ f : Faults, f.FatReadsSucceed s'.vol → FreeInAll s'.vol d →
        OutsideFat s'.vol (call.base s'.vol) (call.sectors s'.vol) → Survives s'.vol d call f := by
  have h := (fat16Mount_success hmount).1
  generalize s'.vol = v at *
  have hends (f : Faults) := call.ends (a := faultyDisk f) (s := ⟨v, true, (d, 0), false⟩) h
  refine ⟨?_, fun f hreads hagree hout => ?_⟩
  · unfold Harmless
    split_ifs with hneeds
    · refine ⟨fun hsurvives copy hcopy c hc => ?_, fun hfree f => ?_⟩
      · by_contra hused
        obtain ⟨f, hf⟩ := Call.not_survives h hbytes hneeds hcopy hc hused
        exact hf (hsurvives f)
      · obtain ⟨r, hr⟩ := hends f
        exact ⟨r, hr, keepsUsed_of_free hfree⟩
    · exact Call.survives_noCluster_iff h hbytes (Bool.not_eq_true _ ▸ hneeds)
  · rcases Nat.eq_zero_or_pos v.numFats.toNat with hzero | hpos
    · obtain ⟨r, hr⟩ := hends f
      exact ⟨r, hr, keepsUsed_of_free fun copy hcopy => absurd hcopy (by omega)⟩
    · exact ReliableFat.survives ⟨h, hbytes, hreads, hpos, hagree⟩ hout

/-- The small volume with the reserved entries in its FAT. -/
def reservedDisk : Disk := Function.update fullRootDisk 1#32 firstFatSector

/-- Without failures the call that creates a small file keeps them. -/
theorem reserved_survives : Survives fullRootMounted.vol reservedDisk createSmall
    ⟨fun _ _ => none, fun _ _ => false⟩ := by
  refine (diskErrors_harmless_iff fullRootMounted_eq (by decide) reservedDisk createSmall).2 _
    (fun _ _ _ => rfl) (fun c _ hfree copy hcopy => ?_)
    (fat16Mount_success fullRootMounted_eq).1.outsideFat_root
  obtain rfl : copy = 0 := Nat.lt_one_iff.mp hcopy
  exact hfree

/-- The reads of its FAT sector fail and leave zeros, and no other sector can be written. -/
def unreadableFat : Faults where
  read _ lba := if lba = 1#32 then some .zero else none
  write _ lba := lba ≠ 1#32

/-- Then the call wipes out the first reserved entry. -/
theorem unreadable_not_survives : ∃ s r, fat16Mount disk 0#32 fullRootStart = (true, s) ∧
    s.vol.bytesPerSector = 512#32 ∧
    createSmall.run (faultyDisk unreadableFat) ⟨s.vol, true, (reservedDisk, 0), false⟩ = some r ∧
    entryAt s.vol reservedDisk 0 0 = 0xFFF8#16 ∧ entryAt s.vol r.2.dev.1 0 0 = 0#16 := by
  have hrun : (createSmall.run (faultyDisk unreadableFat)
      ⟨fullRootMounted.vol, true, (reservedDisk, 0), false⟩).map
        (fun r => entryAt fullRootMounted.vol r.2.dev.1 0 0) = some 0#16 := by decide
  obtain ⟨r, hr, hentry⟩ := Option.map_eq_some_iff.mp hrun
  exact ⟨fullRootMounted, r, fullRootMounted_eq, by decide, hr, by decide, hentry⟩

end AlderKernel.Fs
