import AlderKernel.Fs.FatTable
import AlderKernel.Fs.Format

/-!
# The FAT as an array

On a mounted volume with sectors of 512 bytes, `fat_write_entry` sets one entry of an array of
16-bit values, in each FAT copy alike, and changes no other byte of the disk.
-/

namespace AlderKernel.Fs

open Machine

/-- The entry of a cluster lies inside the FAT. -/
def Volume.HasEntry (v : Volume) (cluster : U32) : Prop :=
  2 * cluster.toNat + 2 ≤ v.fatSizeSectors.toNat * v.bytesPerSector.toNat

/-- The volume as if its FAT began with that copy. -/
def Volume.fromCopy (v : Volume) (copy : ℕ) : Volume :=
  { v with fatStart := v.fatStart + BitVec.ofNat 32 copy * v.fatSizeSectors }

/-- What `fat_read_entry` reads from a FAT copy. -/
def readCopy (copy : ℕ) (cluster : U32) (s : Fat16 Disk) : U16 :=
  (fatReadEntry disk cluster { s with vol := s.vol.fromCopy copy }).1

/-- The byte of a sector belongs to the entry of a cluster, in one of the FAT copies. -/
def Volume.EntryByte (v : Volume) (cluster lba : U32) (i : ℕ) : Prop :=
  ∃ copy < v.numFats.toNat, lba = v.lba (v.entryOffset copy cluster.toNat) ∧
    (i = v.entryByte cluster.toNat ∨ i = v.entryByte cluster.toNat + 1)

section

variable {v : Volume} {s : Fat16 Disk} {c : ℕ}

/-- A cluster whose entry lies in the FAT is addressable. -/
theorem Volume.HasEntry.addressable {cluster : U32} (hc : v.HasEntry cluster)
    (hb : v.bytesPerSector = 512#32) : v.Addressable cluster.toNat := by
  have hbytes : v.bytesPerSector.toNat = 512 := by rw [hb]; rfl
  unfold Volume.HasEntry at hc
  constructor
  · unfold Volume.clusters
    omega
  · exact Or.inl hbytes.le

/-- Each FAT copy is read at its own entries. -/
theorem readCopy_eq (h : MountedVolume s.vol) (hc : c < s.vol.clusters) (copy : ℕ) :
    readCopy copy (BitVec.ofNat 32 c) s = entryAt s.vol s.dev copy c := by
  have hlba : (s.vol.fromCopy copy).fatStart +
      sectorIndex (s.vol.fromCopy copy) (BitVec.ofNat 32 c) =
      s.vol.lba (s.vol.entryOffset copy c) :=
    h.copyLba_eq hc copy
  have hbyte : (offsetInSector (s.vol.fromCopy copy) (BitVec.ofNat 32 c)).toNat =
      s.vol.entryByte c := h.offsetInSector_eq hc
  unfold readCopy fatReadEntry entryAt
  rw [hlba, hbyte]
  rfl

/-- `fat_read_entry` reads the first copy. -/
theorem fatReadEntry_eq_readCopy (cluster : U32) (s : Fat16 Disk) :
    (fatReadEntry disk cluster s).1 = readCopy 0 cluster s := by
  have hvol : s.vol.fromCopy 0 = s.vol := by
    unfold Volume.fromCopy
    rw [BitVec.zero_mul, BitVec.add_zero]
  unfold readCopy
  rw [hvol]

/-- Writing an entry is an update of each copy. -/
theorem readCopy_fatWriteEntry (h : MountedVolume s.vol) (hc : s.vol.Addressable c) {d copy : ℕ}
    (hd : s.vol.Addressable d) (hcopy : copy < s.vol.numFats.toNat) (value : U16) :
    readCopy copy (BitVec.ofNat 32 d) (fatWriteEntry disk (BitVec.ofNat 32 c) value s) =
      if d = c then value else readCopy copy (BitVec.ofNat 32 d) s := by
  have hread : readCopy copy (BitVec.ofNat 32 d) { s with dev := putEntry s.vol c value s.dev } =
      entryAt s.vol (putEntry s.vol c value s.dev) copy d :=
    readCopy_eq (s := { s with dev := putEntry s.vol c value s.dev }) h hd.lt copy
  rw [fatWriteEntry_disk h hc, hread, readCopy_eq h hd.lt]
  split_ifs with heq
  · rw [heq, entryAt_putEntry_self h hc hcopy]
  · exact entryAt_putEntry_of_ne h hc hcopy hd heq

/-- Setting an entry keeps the bytes of the sector outside of it. -/
theorem setEntry_byte_of_ne {sector : Sector} {i j : ℕ} {value : U16} (h : j ≠ i)
    (h' : j ≠ i + 1) : (setEntry sector i value).byte j = sector.byte j := by
  unfold setEntry
  rw [Buffer.byte_set_of_ne h', Buffer.byte_set_of_ne h]

/-- The bytes outside the entry stay. -/
theorem putEntry_byte (h : MountedVolume v) {cluster lba : U32}
    (hc : v.Addressable cluster.toNat) {i : ℕ} (hout : ¬ v.EntryByte cluster lba i) (value : U16)
    (d : Disk) : (putEntry v cluster.toNat value d lba).byte i = (d lba).byte i := by
  obtain ⟨k, hk, rfl⟩ : ∃ k < 2 ^ 32, lba = v.lba k := by
    refine ⟨(lba - v.fatStart).toNat, (lba - v.fatStart).isLt, ?_⟩
    unfold Volume.lba
    bv_omega
  by_cases hex : ∃ j < v.numFats.toNat, k = v.entryOffset j cluster.toNat
  · obtain ⟨j, hj, rfl⟩ := hex
    have hne : ¬ (i = v.entryByte cluster.toNat ∨ i = v.entryByte cluster.toNat + 1) :=
      fun hi => hout ⟨j, hj, rfl, hi⟩
    rw [not_or] at hne
    rw [putEntry_self h hc hj, setEntry_byte_of_ne hne.1 hne.2]
  · rw [putEntry_of_ne h hc hk]
    intro j hj heq
    exact hex ⟨j, hj, heq⟩

end

/-- After `fat_write_entry`, `fat_read_entry` gives the new value for its cluster and the old one
for the others, in the FAT and in each of its copies, and all other bytes of the disk are the
same. -/
theorem fat_behavesAsArray {partitionLba : U32} {s₀ s' s : Fat16 Disk}
    (hmount : fat16Mount disk partitionLba s₀ = (true, s')) (hvol : s.vol = s'.vol)
    (hb : s.vol.bytesPerSector = 512#32) (hfats : 0 < s.vol.numFats.toNat) {c d : U32}
    (hc : s.vol.HasEntry c) (hd : s.vol.HasEntry d) (value : U16) :
    (fatReadEntry disk c (fatWriteEntry disk c value s)).1 = value ∧
      (d ≠ c → (fatReadEntry disk d (fatWriteEntry disk c value s)).1 = (fatReadEntry disk d s).1) ∧
      (∀ copy < s.vol.numFats.toNat, readCopy copy c (fatWriteEntry disk c value s) = value ∧
        (d ≠ c → readCopy copy d (fatWriteEntry disk c value s) = readCopy copy d s)) ∧
      ∀ lba i, ¬ s.vol.EntryByte c lba i →
        ((fatWriteEntry disk c value s).dev lba).byte i = (s.dev lba).byte i := by
  have hv : MountedVolume s.vol := hvol ▸ (fat16Mount_success hmount).1
  have hc' := hc.addressable hb
  have hd' := hd.addressable hb
  have hself : ∀ copy < s.vol.numFats.toNat,
      readCopy copy c (fatWriteEntry disk c value s) = value := by
    intro copy hcopy
    have hwrite := readCopy_fatWriteEntry hv hc' hc' hcopy value
    rwa [if_pos rfl, BitVec.ofNat_toNat, BitVec.setWidth_eq] at hwrite
  have hother : ∀ copy < s.vol.numFats.toNat, d ≠ c →
      readCopy copy d (fatWriteEntry disk c value s) = readCopy copy d s := by
    intro copy hcopy hne
    have hwrite := readCopy_fatWriteEntry hv hc' hd' hcopy value
    rwa [if_neg (by bv_omega), BitVec.ofNat_toNat, BitVec.ofNat_toNat, BitVec.setWidth_eq,
      BitVec.setWidth_eq] at hwrite
  refine ⟨?_, fun hne => ?_, fun copy hcopy => ⟨hself copy hcopy, hother copy hcopy⟩, ?_⟩
  · rw [fatReadEntry_eq_readCopy]
    exact hself 0 hfats
  · rw [fatReadEntry_eq_readCopy, fatReadEntry_eq_readCopy]
    exact hother 0 hfats hne
  · intro lba i hout
    have hwrite : fatWriteEntry disk c value s =
        { s with dev := putEntry s.vol c.toNat value s.dev } := by
      have hdisk := fatWriteEntry_disk hv hc' value
      rwa [BitVec.ofNat_toNat, BitVec.setWidth_eq] at hdisk
    rw [hwrite]
    exact putEntry_byte hv hc' hout value s.dev

/-- A formatted volume after its disk was filled with zeros. -/
def erasedMounted : Fat16 Disk := ⟨formattedVolume 2048#32, true, fun _ => .zero, false⟩

/-- The last entry of the FAT is written in both copies. The entry in front of it and the boot
sector stay. -/
theorem lastEntry_written :
    let t := fatWriteEntry disk 65535#32 0xFFF8#16 erasedMounted
    (fatReadEntry disk 65535#32 t).1 = 0xFFF8#16 ∧ readCopy 1 65535#32 t = 0xFFF8#16 ∧
      readCopy 1 65534#32 t = readCopy 1 65534#32 erasedMounted ∧ (t.dev 2048#32).byte 0 = 0#8 := by
  obtain ⟨s, s', hmount, hvol⟩ := exists_mount_formatted 2048#32
  have hc : erasedMounted.vol.HasEntry 65535#32 := by
    unfold Volume.HasEntry
    decide
  have hd : erasedMounted.vol.HasEntry 65534#32 := by
    unfold Volume.HasEntry
    decide
  obtain ⟨hread, -, hcopies, hbytes⟩ := fat_behavesAsArray (s := erasedMounted) hmount
    hvol.symm rfl (by decide) hc hd 0xFFF8#16
  refine ⟨hread, (hcopies 1 (by decide)).1, (hcopies 1 (by decide)).2 (by decide), ?_⟩
  apply hbytes
  rintro ⟨copy, hcopy, hlba, -⟩
  have hlt : copy < 2 := hcopy
  interval_cases copy
  · exact absurd hlba (by decide)
  · exact absurd hlba (by decide)

end AlderKernel.Fs
