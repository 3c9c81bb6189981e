import AlderKernel.Fs.Mbr
import AlderKernel.Fs.Format

/-!
# Partitioning, formatting and mounting from the shell

The disk commands of `kernel/shell/sysinfo_commands.c`. `mkpart` gives the whole drive to slot 0 of
the partition table; what the other slots held stays there. A volume that is formatted in
that partition is the one that is mounted later.
-/

namespace AlderKernel.Shell

open Machine Fs

/-- What else `drivers/ata.h` offers: `ata_identify`, and `ata_get_total_sectors` after it. -/
structure Drive (σ : Type) extends Ata σ where
  identify : σ → Bool × σ
  totalSectors : σ → U32

/-- `do_mkpart`: the values of `*out_start` and `*out_count` where the code returns 1. -/
def doMkpart {σ : Type} (a : Drive σ) (d : σ) : Option (U32 × U32) × σ :=
  let r := a.identify d
  if ¬ r.1 then (none, r.2) else
  let total := a.totalSectors r.2
  if total = 0#32 then (none, r.2) else
  let start := 2048#32
  if total ≤ start then (none, r.2) else
  let count := total - start
  let w := mbrWritePartition a.toAta 0 1#8 0x06#8 start count r.2
  if ¬ w.1 then (none, w.2) else (some (start, count), w.2)

section

variable {σ : Type} (a : Ata σ)

/-- `do_mkfs`. -/
def doMkfs (start count : U32) (d : σ) : Bool × σ := fat16Format a start count d

/-- `mount_fat16_partition`: the first slot of type 0x06. -/
def mountFat16Partition (s : Fat16 σ) : Bool × Fat16 σ :=
  let r := mbrReadPartitions a s.dev
  let s := { s with dev := r.2 }
  if r.1.1 = 0 then (false, s) else
  match (List.finRange 4).find? fun i => (r.1.2 i).type = 0x06#8 with
  | some i => fat16Mount a (r.1.2 i).lbaStart s
  | none => (false, s)

end

/-- A drive of so many sectors whose transfers all succeed. -/
def drive (total : U32) : Drive Disk where
  toAta := disk
  identify d := (true, d)
  totalSectors _ := total

/-- The sectors of a partition. -/
def sectors (p : MbrPartition) : Set ℕ :=
  Set.Ico p.lbaStart.toNat (p.lbaStart.toNat + p.sectorCount.toNat)

/-- The partitions of a table are on the drive behind the first 2048 sectors, and apart. -/
structure Coherent (table : Fin 4 → MbrPartition) (total : U32) : Prop where
  inside : ∀ i, (table i).type ≠ 0#8 → sectors (table i) ⊆ Set.Ico 2048 total.toNat
  disjoint : ∀ i j, i ≠ j → (table i).type ≠ 0#8 → (table j).type ≠ 0#8 →
    Disjoint (sectors (table i)) (sectors (table j))

/-- The partition that `do_mkpart` writes. -/
def wholeDrive (total : U32) : MbrPartition := ⟨1#8, 0x06#8, 2048#32, total - 2048#32⟩

section

variable {d d' : Disk} {total start count : U32}

/-- What a successful `do_mkpart` leaves in sector 0. -/
theorem doMkpart_disk (h : doMkpart (drive total) d = (some (start, count), d')) :
    start = 2048#32 ∧ count = total - 2048#32 ∧ 2048#32 < total ∧
      tableOf (d' 0#32) = Function.update (tableOf (d 0#32)) 0 (wholeDrive total) := by
  let w : MbrWrite := ⟨0, 1#8, 0x06#8, 2048#32, total - 2048#32⟩
  have hslot : w.slot = some 0 := rfl
  have hwrite : mbrWritePartition (drive total).toAta 0 1#8 0x06#8 2048#32 (total - 2048#32) d =
      w.run disk d := rfl
  have hidentify : (drive total).identify d = (true, d) := rfl
  have htotal : (drive total).totalSectors d = total := rfl
  unfold doMkpart at h
  rw [hidentify] at h
  dsimp only at h
  rw [if_neg (not_not_intro rfl), htotal, hwrite] at h
  split_ifs at h with hzero hsmall hfailed
  · simp at h
  · simp at h
  · obtain ⟨hout, rfl⟩ := Prod.mk.inj h
    obtain ⟨rfl, rfl⟩ := Prod.mk.inj (Option.some.inj hout)
    refine ⟨rfl, rfl, BitVec.not_le.mp hsmall, ?_⟩
    rcases w.run_cases d with ⟨hnone, -⟩ | ⟨i, hi, htable, -⟩
    · exact absurd (hslot.symm.trans hnone) (by simp)
    · obtain rfl := Option.some.inj (hslot.symm.trans hi)
      exact htable
  · simp at h

/-- Slot 0 has all sectors from 2048 on. -/
theorem sectors_wholeDrive (h : 2048#32 < total) :
    sectors (wholeDrive total) = Set.Ico 2048 total.toNat := by
  have hsum : (2048#32).toNat + (total - 2048#32).toNat = total.toNat := by bv_omega
  unfold sectors wholeDrive
  rw [hsum]
  rfl

/-- A table with the whole drive in slot 0 is coherent when the other slots have no sectors. -/
theorem coherent_update_iff (table : Fin 4 → MbrPartition) (h : 2048#32 < total) :
    Coherent (Function.update table 0 (wholeDrive total)) total ↔
      ∀ i ≠ 0, (table i).type = 0#8 ∨ (table i).sectorCount = 0#32 := by
  have hzero : Function.update table 0 (wholeDrive total) 0 = wholeDrive total :=
    Function.update_self ..
  have hother (i : Fin 4) (hi : i ≠ 0) :
      Function.update table 0 (wholeDrive total) i = table i := Function.update_of_ne hi ..
  have hsectors := sectors_wholeDrive h
  have htype : (wholeDrive total).type ≠ 0#8 := by simp [wholeDrive]
  constructor
  · intro hcoherent i hi
    by_contra hused
    rw [not_or] at hused
    -- The first sector of the slot would belong to slot 0 too.
    have hmem : (table i).lbaStart.toNat ∈ sectors (table i) := by
      have hpos : 0 < (table i).sectorCount.toNat := by
        have hne := hused.2
        bv_omega
      exact ⟨le_rfl, by omega⟩
    have hinside := hcoherent.inside i (by rw [hother i hi]; exact hused.1)
    have hapart := hcoherent.disjoint i 0 hi (by rw [hother i hi]; exact hused.1)
      (by rw [hzero]; exact htype)
    rw [hother i hi] at hinside
    rw [hother i hi, hzero, hsectors] at hapart
    exact Set.disjoint_left.mp hapart hmem (hinside hmem)
  · intro hempty
    have hnone (i : Fin 4) (hi : i ≠ 0)
        (hused : (Function.update table 0 (wholeDrive total) i).type ≠ 0#8) :
        sectors (Function.update table 0 (wholeDrive total) i) = ∅ := by
      rw [hother i hi] at hused ⊢
      have hcount := (hempty i hi).resolve_left hused
      simp [sectors, hcount]
    refine ⟨fun i hused => ?_, fun i j hij hi hj => ?_⟩
    · by_cases hi : i = 0
      · subst hi
        rw [hzero, hsectors]
      · rw [hnone i hi hused]
        exact Set.empty_subset _
    · by_cases hizero : i = 0
      · rw [hnone j (hizero ▸ hij.symm) hj]
        exact Set.disjoint_empty _
      · rw [hnone i hizero hi]
        exact Set.empty_disjoint _

/-- After `do_mkpart` the partition table is coherent exactly when slots 1 to 3 of the old table
were unused or without sectors. Without a signature in sector 0 there was no old table. -/
theorem mkpart_coherent_iff (h : doMkpart (drive total) d = (some (start, count), d')) :
    Coherent (mbrReadPartitions disk d').1.2 total ↔
      ∀ i ≠ 0, (tableOf (d 0#32) i).type = 0#8 ∨ (tableOf (d 0#32) i).sectorCount = 0#32 := by
  obtain ⟨-, -, hlarge, htable⟩ := doMkpart_disk h
  rw [mbrReadPartitions_disk, htable]
  exact coherent_update_iff _ hlarge

end

/-- On an empty drive `do_mkpart` leaves a coherent table. -/
theorem emptyDrive_coherent : ∃ d',
    doMkpart (drive 100000#32) (fun _ => .zero) = (some (2048#32, 97952#32), d') ∧
      Coherent (mbrReadPartitions disk d').1.2 100000#32 := by
  have hempty (i : Fin 4) : tableOf .zero i = .unused := if_neg (by simp [hasSignature, word16])
  refine ⟨_, rfl, (mkpart_coherent_iff rfl).mpr fun i _ => ?_⟩
  rw [hempty]
  exact .inl rfl

/-- A sector 0 with one partition in slot 1, of type 0x83. -/
def secondSlot : Sector := withEntry .zero 1 (entryBytes 0#8 0x83#8 4096#32 1000#32)

/-- On a drive with a partition in slot 1 that one stays in the table, inside of the new one. -/
theorem secondSlot_not_coherent : ∃ d',
    doMkpart (drive 100000#32) (fun _ => secondSlot) = (some (2048#32, 97952#32), d') ∧
      ¬ Coherent (mbrReadPartitions disk d').1.2 100000#32 := by
  have hslot : tableOf secondSlot 1 = ⟨0#8, 0x83#8, 4096#32, 1000#32⟩ := by
    have htable := tableOf_withEntry .zero 1 (entryBytes 0#8 0x83#8 4096#32 1000#32)
    have hentry := parseEntry_entryBytes ⟨1, 0#8, 0x83#8, 4096#32, 1000#32⟩
    have hself := congrFun htable 1
    rw [Function.update_self] at hself
    exact hself.trans hentry
  refine ⟨_, rfl, fun hcoherent => ?_⟩
  have hmkpart : doMkpart (drive 100000#32) (fun _ => secondSlot) =
      (some (2048#32, 97952#32), _) := rfl
  obtain ⟨-, -, hlarge, htable⟩ := doMkpart_disk hmkpart
  rw [mbrReadPartitions_disk, htable] at hcoherent
  have hused := (coherent_update_iff _ hlarge).mp hcoherent 1 (by decide)
  rw [hslot] at hused
  exact absurd hused (by decide)

section

variable {d d₁ d₂ : Disk} {total start count : U32}

/-- Formatting behind sector 0 leaves that sector. -/
theorem formattedDisk_zero (h : 0 < start.toNat) (hfits : start.toNat + 545 ≤ 2 ^ 32) :
    formattedDisk start count d 0#32 = d 0#32 := by
  have hlba : (formattedVolume start).lba (2 ^ 32 - 1 - start.toNat) = 0#32 := by
    change start + 1#32 + BitVec.ofNat 32 (2 ^ 32 - 1 - start.toNat) = 0#32
    bv_omega
  rw [← hlba]
  exact formattedDisk_of_ne (by omega) (by omega)

/-- When slot 0 has type 0x06 the search for such a slot ends there. -/
theorem firstSlot {table : Fin 4 → MbrPartition} (h : (table 0).type = 0x06#8) :
    usedSlots table ≠ 0 ∧
      (List.finRange 4).find? (fun i => (table i).type = 0x06#8) = some 0 := by
  constructor
  · have hpos : 0 < usedSlots table :=
      List.countP_pos_iff.mpr ⟨0, List.mem_finRange 0, by simp [h]⟩
    omega
  · rw [List.finRange_succ, List.find?_cons_of_pos (by simp [h])]

/-- `mount_fat16_partition` mounts slot 0 when that has type 0x06. -/
theorem mountFat16Partition_first {s : Fat16 Disk}
    (h : (tableOf (s.dev 0#32) 0).type = 0x06#8) :
    mountFat16Partition disk s = fat16Mount disk (tableOf (s.dev 0#32) 0).lbaStart s := by
  obtain ⟨hused, hfirst⟩ := firstSlot h
  unfold mountFat16Partition
  rw [mbrReadPartitions_disk]
  dsimp only
  rw [if_neg hused, hfirst]

/-- An installed volume is found again. When `do_mkpart` and `do_mkfs` succeed, whatever the disk
held and was mounted before, `mount_fat16_partition` mounts the partition that was formatted, with
the FATs, the root directory and the data where `fat16_format` put them. All clusters are free
and the root directory is empty. -/
theorem installed_mounted {s : Fat16 Disk}
    (hpart : doMkpart (drive total) d = (some (start, count), d₁))
    (hfs : doMkfs disk start count d₁ = (true, d₂)) (hdev : s.dev = d₂) :
    ∃ s', mountFat16Partition disk s = (true, s') ∧ s'.vol.partitionLba = start ∧
      s'.vol.fatStart = start + reservedSectors ∧
      s'.vol.rootStart = start + reservedSectors + numFats * fatSizeSectors ∧
      s'.vol.dataStart = start + reservedSectors + numFats * fatSizeSectors + rootDirSectors ∧
      (∀ c : U32, 2 ≤ c.toNat → c.toNat < 65536 → (fatReadEntry disk c s').1 = 0#16) ∧
      ∀ maxEntries, (fat16ListRoot disk maxEntries s').1 = (0, []) := by
  obtain ⟨rfl, -, -, htable⟩ := doMkpart_disk hpart
  obtain ⟨rfl, -⟩ := fat16Format_disk hfs
  have hzero : s.dev 0#32 = d₁ 0#32 := hdev ▸ formattedDisk_zero (by decide) (by decide)
  have hslot : tableOf (s.dev 0#32) 0 = wholeDrive total := by
    rw [hzero, htable, Function.update_self]
  have hboot : s.dev 2048#32 = bootSector 2048#32 count := hdev ▸ formattedDisk_boot
  refine ⟨{ s with vol := formattedVolume 2048#32, mounted := true }, ?_, rfl, rfl, rfl, rfl,
    ?_, ?_⟩
  · rw [mountFat16Partition_first (congrArg MbrPartition.type hslot), hslot]
    exact fat16Mount_formatted hboot
  · intro c hc hc'
    have hread := fatReadEntry_disk
      (s := { s with vol := formattedVolume 2048#32, mounted := true })
      (formattedVolume_mounted 2048#32) (formatted_addressable 2048#32 hc')
    rw [BitVec.ofNat_toNat, BitVec.setWidth_eq] at hread
    rw [hread]
    dsimp only
    rw [hdev]
    exact formattedDisk_entry (by decide) hc hc'
  · intro maxEntries
    rw [fat16ListRoot_disk rfl, hdev]
    unfold listingOf
    rw [formatted_rootDirSectors, shownFrom_formatted]
    simp

end

/-- A volume that is installed on an empty drive is found again. -/
theorem emptyDrive_installed : ∃ d₁ s',
    doMkpart (drive 300000#32) (fun _ => .zero) = (some (2048#32, 297952#32), d₁) ∧
      doMkfs disk 2048#32 297952#32 d₁ = (true, formattedDisk 2048#32 297952#32 d₁) ∧
      mountFat16Partition disk ⟨formattedVolume 0#32, false,
        formattedDisk 2048#32 297952#32 d₁, false⟩ = (true, s') ∧
      s'.vol.partitionLba = 2048#32 := by
  have hpart : doMkpart (drive 300000#32) (fun _ => .zero) =
      (some (2048#32, 297952#32), _) := rfl
  have hfs (d₁ : Disk) : doMkfs disk 2048#32 297952#32 d₁ = (true, _) :=
    fat16Format_of_admitted _ _ (by simp [Admitted]) d₁
  obtain ⟨s', hmount, hlba, -⟩ :=
    installed_mounted (s := ⟨formattedVolume 0#32, false, _, false⟩) hpart (hfs _) rfl
  exact ⟨_, s', hpart, hfs _, hmount, hlba⟩

end AlderKernel.Shell
