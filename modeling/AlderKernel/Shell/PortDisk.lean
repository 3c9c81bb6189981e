import AlderKernel.Drivers.Ata
import AlderKernel.Fs.DeviceMaps
import AlderKernel.Shell.SysinfoCommands

/-!
# The disk functions over the ports

Under `fat16.c`, `mbr.c` and the disk commands is `ata.c`, which talks to the drive a byte or a word
at a time. Seen from above, the drive is a store of `2 ^ 28` sectors some of whose transfers are
refused. Which ones these are, the values of the status register decide.
-/

namespace AlderKernel.Shell

open Machine Drivers Fs

/-! ### Identifying a drive -/

/-- `ATA_CMD_IDENTIFY`. -/
def ataCmdIdentify : U8 := 0xEC#8

/-- A byte written to a port of the master drive. It takes IDENTIFY in LBA mode or not. -/
def masterOutb (port : U16) (v : U8) (d : Drivers.Drive) : Drivers.Drive :=
  if port = ataCommand ∧ v = ataCmdIdentify ∧ d.driveHead &&& 0x10#8 = 0#8 then
    { d with command := v, words := 0 }
  else d.outb port v

/-- A word read from a port of a drive that identifies itself by 512 bytes. -/
def masterInw (identity : Sector) (port : U16) (d : Drivers.Drive) : U16 × Drivers.Drive :=
  if port = ataData ∧ d.command = ataCmdIdentify ∧ d.words < 256 then
    (halfword identity d.words, { d with words := d.words + 1 })
  else d.inw port

/-- The number of sectors that a drive with these bytes has. -/
def capacity (identity : Sector) : U32 := halfword identity 61 ++ halfword identity 60

/-- What `ata.c` works on. -/
structure Ports where
  drive : Drivers.Drive
  /-- `total_sectors_cache`. -/
  totalSectorsCache : U32
  /-- What the buffers of the transfers to come hold in front of them, one for each transfer. -/
  stack : ℕ → Sector

/-- The registers that `ata_identify` writes, up to the command. -/
def selectIdentity (d : Drivers.Drive) : Drivers.Drive :=
  let d := masterOutb ataDriveHead 0xA0#8 d
  let d := masterOutb ataSectorCnt 0#8 d
  let d := masterOutb ataLbaLo 0#8 d
  let d := masterOutb ataLbaMid 0#8 d
  let d := masterOutb ataLbaHi 0#8 d
  masterOutb ataCommand ataCmdIdentify d

section

variable (identity : Sector)

/-- The first `n` rounds of the loop `words[i] = inw(ATA_DATA)`. -/
def readIdentity : ℕ → (ℕ → U16) → Drivers.Drive → (ℕ → U16) × Drivers.Drive
  | 0, words, d => (words, d)
  | n + 1, words, d =>
    let r := readIdentity n words d
    let w := masterInw identity ataData r.2
    (Function.update r.1 n w.1, w.2)

/-- `ata_identify`. -/
def ataIdentify (p : Ports) : Bool × Ports :=
  let status := (selectIdentity p.drive).inb ataStatus
  if status.1 = 0#8 then (false, { p with drive := status.2 }) else
  let drq := ataWaitDrq status.2
  if ¬ drq.1 then (false, { p with drive := drq.2 }) else
  let r := readIdentity identity 256 (fun _ => 0#16) drq.2
  (true, { p with
    drive := r.2
    totalSectorsCache := (r.1 60).setWidth 32 ||| (r.1 61).setWidth 32 <<< 16 })

/-- `drivers/ata.h` over the ports. -/
def ports : Drive Ports where
  readSector lba p :=
    let r := ataReadSector lba (p.stack 0) p.drive
    (r.1, { p with drive := r.2, stack := fun n => p.stack (n + 1) })
  writeSector lba sector p :=
    let r := ataWriteSector lba sector p.drive
    (r.1, { p with drive := r.2, stack := fun n => p.stack (n + 1) })
  identify := ataIdentify identity
  totalSectors p := p.totalSectorsCache

end

/-! ### The store -/

/-- How a drive answers: whether it serves a transfer, or what is left in the buffer of a read
that it does not serve, and whether it identifies itself. -/
structure Answers (β : Type) where
  transfer : β → Option Sector × β
  identify : β → Bool × β

/-- The sectors of a drive, the capacity that it last gave, and what it will answer. -/
structure Store (β : Type) where
  sectors : BitVec 28 → Sector
  total : U32
  answers : β

/-- A drive of so many sectors. A transfer that is served reaches the sector of the low 28 bits of
the address, and no other one changes anything. -/
def sectorStore {β : Type} (w : Answers β) (capacity : U32) : Drive (Store β) where
  readSector lba s :=
    (match (w.transfer s.answers).1 with
      | none => (true, s.sectors (lba.setWidth 28))
      | some left => (false, left),
      { s with answers := (w.transfer s.answers).2 })
  writeSector lba sector s :=
    match (w.transfer s.answers).1 with
    | none => (true, ⟨Function.update s.sectors (lba.setWidth 28) sector, s.total,
        (w.transfer s.answers).2⟩)
    | some _ => (false, { s with answers := (w.transfer s.answers).2 })
  identify s :=
    ((w.identify s.answers).1,
      { s with
        total := if (w.identify s.answers).1 then capacity else s.total
        answers := (w.identify s.answers).2 })
  totalSectors s := s.total

/-- Polling the status until a value ends the loop, which then decides. -/
def poll (ends decides : U8 → Bool) : ℕ → (ℕ → U8) → Bool × (ℕ → U8)
  | 0, status => (false, status)
  | polls + 1, status =>
    if ends (status 0) then (decides (status 0), fun n => status (n + 1))
    else poll ends decides polls fun n => status (n + 1)

/-- The drive is not busy any more, and has no error. -/
def pollsReady (status : ℕ → U8) : Bool × (ℕ → U8) :=
  poll (fun v => v &&& ataStatusBsy = 0#8) (fun v => v &&& ataStatusErr = 0#8) 100000 status

/-- The drive has data or takes them, and has no error. -/
def pollsDrq (status : ℕ → U8) : Bool × (ℕ → U8) :=
  poll (fun v => v &&& ataStatusErr ≠ 0#8 ∨ v &&& ataStatusDrq ≠ 0#8)
    (fun v => v &&& ataStatusErr = 0#8) 100000 status

/-- What the values of the status register make of a transfer: whether it is served, and the values
that are left. -/
def served (status : ℕ → U8) : Bool × (ℕ → U8) :=
  let ready := pollsReady status
  if ¬ ready.1 then (false, ready.2) else pollsDrq ready.2

/-- The answers of a drive with these values in its status register, and these buffers. -/
def statusAnswers : Answers ((ℕ → U8) × (ℕ → Sector)) where
  transfer r :=
    (if (served r.1).1 then none else some (r.2 0), (served r.1).2, fun n => r.2 (n + 1))
  identify r :=
    if r.1 0 = 0#8 then (false, fun n => r.1 (n + 1), r.2) else
    let drq := pollsDrq fun n => r.1 (n + 1)
    (drq.1, drq.2, r.2)

/-- The store that a drive at the ports is. -/
def Ports.store (p : Ports) : Store ((ℕ → U8) × (ℕ → Sector)) :=
  ⟨p.drive.sectors, p.totalSectorsCache, p.drive.status, p.stack⟩

section

variable {d : Drivers.Drive} {lba : U32} {buffer : Sector} {n : ℕ}

/-! ### The status register -/

/-- The loop of `ata_wait_ready` in terms of the status. -/
theorem pollReady_eq (polls : ℕ) (d : Drivers.Drive) :
    pollReady polls d =
      let r := poll (fun v => v &&& ataStatusBsy = 0#8) (fun v => v &&& ataStatusErr = 0#8) polls
        d.status
      (r.1, { d with status := r.2 }) := by
  induction polls generalizing d with
  | zero => rfl
  | succ polls ih =>
    simp only [pollReady, Drive.inb, if_true, poll, ih, decide_eq_true_eq]
    split_ifs <;> rfl

/-- `ata_wait_ready` in terms of the status. -/
theorem ataWaitReady_eq (d : Drivers.Drive) :
    ataWaitReady d = ((pollsReady d.status).1, { d with status := (pollsReady d.status).2 }) :=
  pollReady_eq 100000 d

/-- The loop of `ata_wait_drq` in terms of the status. -/
theorem pollDrq_eq (polls : ℕ) (d : Drivers.Drive) :
    pollDrq polls d =
      let r := poll (fun v => v &&& ataStatusErr ≠ 0#8 ∨ v &&& ataStatusDrq ≠ 0#8)
        (fun v => v &&& ataStatusErr = 0#8) polls d.status
      (r.1, { d with status := r.2 }) := by
  induction polls generalizing d with
  | zero => rfl
  | succ polls ih =>
    simp only [pollDrq, Drive.inb, if_true, poll, ih, decide_eq_true_eq]
    by_cases herr : d.status 0 &&& ataStatusErr = 0#8
    · by_cases hdrq : d.status 0 &&& ataStatusDrq = 0#8
      · simp [herr, hdrq]
      · simp [herr, hdrq]
    · simp [herr]

/-- `ata_wait_drq` in terms of the status. -/
theorem ataWaitDrq_eq (d : Drivers.Drive) :
    ataWaitDrq d = ((pollsDrq d.status).1, { d with status := (pollsDrq d.status).2 }) :=
  pollDrq_eq 100000 d

/-- Selecting a sector reads no status. -/
@[simp] theorem selectSector_status (command : U8) (lba : U32) (d : Drivers.Drive) :
    (selectSector command lba d).status = d.status := by
  simp [selectSector]

/-- Reading a word reads no status. -/
@[simp] theorem inw_status (port : U16) (d : Drivers.Drive) : (d.inw port).2.status = d.status := by
  unfold Drive.inw
  split_ifs <;> rfl

/-- Writing a word reads no status. -/
@[simp] theorem outw_status (port v : U16) (d : Drivers.Drive) :
    (d.outw port v).status = d.status := by
  unfold Drive.outw
  split_ifs <;> rfl

/-- Reading the words of a sector reads no status. -/
@[simp] theorem readWords_status (n : ℕ) (buffer : Sector) (d : Drivers.Drive) :
    (readWords n buffer d).2.status = d.status := by
  induction n with
  | zero => rfl
  | succ n ih => simp [readWords, ih]

/-- Writing the words of a sector reads no status. -/
@[simp] theorem writeWords_status (n : ℕ) (buffer : Sector) (d : Drivers.Drive) :
    (writeWords n buffer d).status = d.status := by
  induction n with
  | zero => rfl
  | succ n ih => simp [writeWords, ih]

/-! ### Transfers -/

/-- The drive when a command for one sector begins, in terms of the status. -/
theorem begins_status (command : U8) (lba : U32) (d : Drivers.Drive) :
    d.Begins command (lba.setWidth 28)
      { selectSector command lba { d with status := (pollsReady d.status).2 } with
        status := (pollsDrq (pollsReady d.status).2).2 } := by
  have h := ataWaitDrq_begins command lba d
  rw [ataWaitReady_eq, ataWaitDrq_eq, selectSector_status] at h
  exact h

/-- A read in terms of the status: it is served, or it leaves the buffer alone. -/
theorem ataReadSector_served (lba : U32) (buffer : Sector) (d : Drivers.Drive) :
    let r := ataReadSector lba buffer d
    r.1 = (if (served d.status).1 then (true, d.sectors (lba.setWidth 28)) else (false, buffer)) ∧
      r.2.sectors = d.sectors ∧ r.2.status = (served d.status).2 := by
  have hbegins := begins_status ataCmdRead lba d
  obtain ⟨hbytes, hdrive⟩ := readWords_spec (b := buffer) hbegins (le_refl 256)
  simp only [ataReadSector, served, ataWaitReady_eq, ataWaitDrq_eq, selectSector_status]
  by_cases hready : (pollsReady d.status).1 = true
  · by_cases hdrq : (pollsDrq (pollsReady d.status).2).1 = true
    · simp only [hready, hdrq, not_true_eq_false, if_false, if_true]
      refine ⟨Prod.ext rfl (Buffer.ext fun j hj => ?_), ?_, readWords_status _ _ _⟩
      · rw [hbytes j hj, if_pos (by omega)]
      · rw [hdrive]
        exact hbegins.sectors
    · simp only [hready, hdrq, not_true_eq_false, if_false]
      exact ⟨rfl, hbegins.sectors, rfl⟩
  · simp only [hready]
    exact ⟨rfl, rfl, rfl⟩

/-- A write in terms of the status: it is served, or it leaves the sectors alone. -/
theorem ataWriteSector_served (lba : U32) (buffer : Sector) (d : Drivers.Drive) :
    let r := ataWriteSector lba buffer d
    r.1 = (served d.status).1 ∧
      r.2.sectors = (if (served d.status).1 then
        Function.update d.sectors (lba.setWidth 28) buffer else d.sectors) ∧
      r.2.status = (served d.status).2 := by
  have hbegins := begins_status ataCmdWrite lba d
  obtain ⟨sector, hbytes, hdrive⟩ := writeWords_spec buffer hbegins (le_refl 256)
  obtain rfl : sector = buffer := Buffer.ext fun j hj => by rw [hbytes j hj, if_pos (by omega)]
  simp only [ataWriteSector, served, ataWaitReady_eq, ataWaitDrq_eq, selectSector_status]
  by_cases hready : (pollsReady d.status).1 = true
  · by_cases hdrq : (pollsDrq (pollsReady d.status).2).1 = true
    · simp only [hready, hdrq, not_true_eq_false, if_false, if_true]
      exact ⟨trivial, by rw [hdrive], writeWords_status _ _ _⟩
    · simp only [hready, hdrq, not_true_eq_false, if_false]
      exact ⟨rfl, hbegins.sectors, rfl⟩
  · simp only [hready]
    exact ⟨rfl, rfl, rfl⟩

/-! ### IDENTIFY -/

/-- After the registers are written the drive is at the beginning of IDENTIFY. -/
theorem selectIdentity_eq (d : Drivers.Drive) :
    (selectIdentity d).sectors = d.sectors ∧ (selectIdentity d).status = d.status ∧
      (selectIdentity d).command = ataCmdIdentify ∧ (selectIdentity d).words = 0 := by
  simp [selectIdentity, masterOutb, Drive.outb, ataDriveHead, ataSectorCnt, ataLbaLo, ataLbaMid,
    ataLbaHi, ataCommand, ataCmdIdentify]

/-- The words that are read are those of the bytes, one after the other. -/
theorem readIdentity_spec (identity : Sector) (hcommand : d.command = ataCmdIdentify)
    (hwords : d.words = 0) (words : ℕ → U16) (hn : n ≤ 256) :
    let r := readIdentity identity n words d
    (∀ i < n, r.1 i = halfword identity i) ∧ r.2 = { d with words := n } := by
  induction n with
  | zero => exact ⟨fun i hi => absurd hi (Nat.not_lt_zero i), by cases d; cases hwords; rfl⟩
  | succ n ih =>
    obtain ⟨hread, hdrive⟩ := ih (by omega)
    have hword : masterInw identity ataData (readIdentity identity n words d).2 =
        (halfword identity n, { d with words := n + 1 }) := by
      rw [hdrive]
      exact if_pos ⟨rfl, hcommand, hn⟩
    simp only [readIdentity, hword, and_true]
    intro i hi
    rcases Nat.lt_succ_iff_lt_or_eq.mp hi with hlt | rfl
    · rw [Function.update_of_ne (Nat.ne_of_lt hlt), hread i hlt]
    · rw [Function.update_self]

/-- Two words put together with the first one low. -/
theorem joined_words (lo hi : U16) : lo.setWidth 32 ||| hi.setWidth 32 <<< 16 = hi ++ lo := by
  ext i hi'
  simp
  grind

/-- IDENTIFY in terms of the status: the drive is there and tells its capacity, or nothing but the
status has changed. -/
theorem ataIdentify_store (identity : Sector) (p : Ports) :
    (ataIdentify identity p).1 = (statusAnswers.identify (p.drive.status, p.stack)).1 ∧
      (ataIdentify identity p).2.store = ⟨p.drive.sectors,
        if (ataIdentify identity p).1 then capacity identity else p.totalSectorsCache,
        (statusAnswers.identify (p.drive.status, p.stack)).2⟩ := by
  obtain ⟨hsectors, hstatus, hcommand, hwords⟩ := selectIdentity_eq p.drive
  unfold ataIdentify
  generalize selectIdentity p.drive = d at *
  have hinb : d.inb ataStatus = (p.drive.status 0,
      { d with status := fun n => p.drive.status (n + 1) }) := by
    simp [Drive.inb, hstatus]
  simp only [hinb, ataWaitDrq_eq, statusAnswers]
  by_cases hzero : p.drive.status 0 = 0#8
  · simp [hzero, Ports.store, hsectors]
  · by_cases hdrq : (pollsDrq fun n => p.drive.status (n + 1)).1 = true
    · obtain ⟨hread, hdrive⟩ := readIdentity_spec identity
        (d := { d with status := (pollsDrq fun n => p.drive.status (n + 1)).2 })
        hcommand hwords (fun _ => 0#16) (le_refl 256)
      simp only [hzero, hdrq, if_false, not_true_eq_false, if_true, Ports.store, hdrive,
        hread 60 (by decide), hread 61 (by decide), joined_words]
      exact ⟨trivial, by rw [hsectors]; rfl⟩
    · simp [hzero, hdrq, Ports.store, hsectors]

end

/-! ### Calls -/

/-- A call of `ata_identify`, `ata_get_total_sectors`, `fat16.c`, `mbr.c`, `do_mkpart` or
`mount_fat16_partition`. -/
inductive DiskCall where
  | identify
  | totalSectors
  | format (partitionLba sectorCount : U32)
  | mount (partitionLba : U32)
  | make (call : Call)
  | listRoot (maxEntries : ℤ)
  | listDir (dirCluster : U32) (maxEntries : ℤ)
  | findInRoot (name ext : List U8)
  | findInDir (dirCluster : U32) (name ext : List U8)
  | readFile (firstCluster size : U32) (buffer : U32 → U8) (bufferSize : U32)
  | readPartitions
  | writePartition (w : MbrWrite)
  | mkpart
  | mountPartition

/-- What a call hands back. -/
inductive Reply where
  | done (ok : Bool)
  | sectors (count : U32)
  | made (result : Result)
  | listed (count : ℤ) (out : List Dirent)
  | found (entry : Option Dirent)
  | read (ok : Bool) (buffer : U32 → U8)
  | partitions (used : ℕ) (out : Fin 4 → MbrPartition)
  | partitioned (out : Option (U32 × U32))

/-- A function of the device alone, on the variables of `fat16.c`. -/
def onDevice {σ α : Type} (run : σ → α × σ) (s : Fat16 σ) : α × Fat16 σ :=
  ((run s.dev).1, { s with dev := (run s.dev).2 })

/-- Make a call: what it hands back, and the state behind it. -/
def DiskCall.run {σ : Type} (a : Drive σ) : DiskCall → Fat16 σ → Option (Reply × Fat16 σ)
  | identify, s => some (Prod.map .done id (onDevice a.identify s))
  | totalSectors, s => some (.sectors (a.totalSectors s.dev), s)
  | format p count, s => some (Prod.map .done id (onDevice (fat16Format a.toAta p count) s))
  | mount p, s => some (Prod.map .done id (fat16Mount a.toAta p s))
  | make call, s => (call.run a.toAta s).map (Prod.map .made id)
  | listRoot n, s => some (Prod.map (fun r => .listed r.1 r.2) id (fat16ListRoot a.toAta n s))
  | listDir c n, s => some (Prod.map (fun r => .listed r.1 r.2) id (fat16ListDir a.toAta c n s))
  | findInRoot name ext, s => some (Prod.map .found id (fat16FindInRoot a.toAta name ext s))
  | findInDir c name ext, s => some (Prod.map .found id (fat16FindInDir a.toAta c name ext s))
  | readFile c size buffer bufferSize, s =>
    (fat16ReadFile a.toAta c size buffer bufferSize s).map (Prod.map (fun r => .read r.1 r.2) id)
  | readPartitions, s =>
    some (Prod.map (fun r => .partitions r.1 r.2) id (onDevice (mbrReadPartitions a.toAta) s))
  | writePartition w, s => some (Prod.map .done id (onDevice (w.run a.toAta) s))
  | mkpart, s => some (Prod.map .partitioned id (onDevice (doMkpart a) s))
  | mountPartition, s => some (Prod.map .done id (mountFat16Partition a.toAta s))

/-- Make calls one after the other. There is no result when one of them does not end. -/
def DiskCall.runAll {σ : Type} (a : Drive σ) :
    List DiskCall → Fat16 σ → Option (List Reply × Fat16 σ)
  | [], s => some ([], s)
  | call :: calls, s => (call.run a s).bind fun r =>
      (DiskCall.runAll a calls r.2).map (Prod.map (List.cons r.1) id)

section

variable {identity : Sector}

/-- The ports are the store, transfer by transfer. -/
theorem ports_deviceMap (identity : Sector) : DeviceMap (ports identity).toAta
    (sectorStore statusAnswers (capacity identity)).toAta Ports.store := by
  constructor
  · intro lba p
    obtain ⟨hreply, hsectors, hstatus⟩ := ataReadSector_served lba (p.stack 0) p.drive
    simp only [ports, sectorStore, statusAnswers, Ports.store, Prod.map, id_eq, hreply, hsectors,
      hstatus]
    split_ifs <;> rfl
  · intro lba sector p
    obtain ⟨hreply, hsectors, hstatus⟩ := ataWriteSector_served lba sector p.drive
    simp only [ports, sectorStore, statusAnswers, Ports.store, Prod.map, id_eq, hreply, hsectors,
      hstatus]
    split_ifs with hserved
    · rw [hserved]
    · rw [Bool.not_eq_true] at hserved
      rw [hserved]

/-- IDENTIFY at the ports is that of the store. -/
theorem ports_identify (p : Ports) :
    (sectorStore statusAnswers (capacity identity)).identify p.store =
      Prod.map id Ports.store ((ports identity).identify p) := by
  obtain ⟨hreply, hstore⟩ := ataIdentify_store identity p
  refine Prod.ext hreply.symm ?_
  change _ = (ataIdentify identity p).2.store
  rw [hstore, hreply]
  rfl

/-- `do_mkpart` over the ports is the one over the store. -/
theorem ports_doMkpart (p : Ports) :
    doMkpart (sectorStore statusAnswers (capacity identity)) p.store =
      Prod.map id Ports.store (doMkpart (ports identity) p) := by
  have htotal (q : Ports) : (sectorStore statusAnswers (capacity identity)).totalSectors q.store =
      (ports identity).totalSectors q := rfl
  simp only [doMkpart, ports_identify, Prod.map_fst, Prod.map_snd, id_eq, htotal,
    (ports_deviceMap identity).mbrWritePartition]
  split_ifs <;> rfl

/-- `mount_fat16_partition` over the ports is the one over the store. -/
theorem ports_mountFat16Partition (s : Fat16 Ports) :
    mountFat16Partition (sectorStore statusAnswers (capacity identity)).toAta (s.map Ports.store) =
      Prod.map id (Fat16.map Ports.store) (mountFat16Partition (ports identity).toAta s) := by
  have hmap := ports_deviceMap identity
  simp only [mountFat16Partition, Fat16.map_dev, Fat16.map_vol, Fat16.map_mounted,
    Fat16.map_overrun, hmap.mbrReadPartitions, Prod.map_fst, Prod.map_snd, id_eq,
    Fat16.mk_map Ports.store]
  split_ifs
  · rfl
  · cases (List.finRange 4).find? fun i =>
        ((mbrReadPartitions (ports identity).toAta s.dev).1.2 i).type = 0x06#8 with
    | none => rfl
    | some i => exact hmap.fat16Mount ..

/-- One call over the ports is the call over the store. -/
theorem ports_run (call : DiskCall) (s : Fat16 Ports) :
    call.run (sectorStore statusAnswers (capacity identity)) (s.map Ports.store) =
      (call.run (ports identity) s).map (Prod.map id (Fat16.map Ports.store)) := by
  have hmap := ports_deviceMap identity
  cases call with
  | identify =>
    simp only [DiskCall.run, onDevice, Fat16.map_dev, ports_identify]
    rfl
  | totalSectors => rfl
  | format p count =>
    simp only [DiskCall.run, onDevice, Fat16.map_dev, hmap.fat16Format]
    rfl
  | mount p =>
    simp only [DiskCall.run, hmap.fat16Mount]
    rfl
  | make call =>
    simp only [DiskCall.run, hmap.call_run, Option.map_map]
    rfl
  | listRoot n =>
    simp only [DiskCall.run, hmap.fat16ListRoot]
    rfl
  | listDir c n =>
    simp only [DiskCall.run, hmap.fat16ListDir]
    rfl
  | findInRoot name ext =>
    simp only [DiskCall.run, hmap.fat16FindInRoot]
    rfl
  | findInDir c name ext =>
    simp only [DiskCall.run, hmap.fat16FindInDir]
    rfl
  | readFile c size buffer bufferSize =>
    simp only [DiskCall.run, hmap.fat16ReadFile, Option.map_map]
    rfl
  | readPartitions =>
    simp only [DiskCall.run, onDevice, Fat16.map_dev, hmap.mbrReadPartitions]
    rfl
  | writePartition w =>
    simp only [DiskCall.run, onDevice, Fat16.map_dev, MbrWrite.run, hmap.mbrWritePartition]
    rfl
  | mkpart =>
    simp only [DiskCall.run, onDevice, Fat16.map_dev, ports_doMkpart]
    rfl
  | mountPartition =>
    simp only [DiskCall.run, ports_mountFat16Partition]
    rfl

/-- The stack down to the ports. Whatever the drive shows in its status register and whatever the
buffers hold, every sequence of calls hands back over the ports what it hands back over a store of
`2 ^ 28` sectors that refuses transfers as the status says, and leaves the same variables and
sectors. -/
theorem runAll_ports (identity : Sector) (calls : List DiskCall) (s : Fat16 Ports) :
    DiskCall.runAll (sectorStore statusAnswers (capacity identity)) calls (s.map Ports.store) =
      (DiskCall.runAll (ports identity) calls s).map (Prod.map id (Fat16.map Ports.store)) := by
  induction calls generalizing s with
  | nil => rfl
  | cons call calls ih =>
    rw [DiskCall.runAll, DiskCall.runAll, ports_run]
    cases call.run (ports identity) s with
    | none => rfl
    | some r =>
      simp only [Option.map_some, Option.bind_some, Prod.map_fst, Prod.map_snd, id_eq, ih,
        Option.map_map]
      rfl

end

end AlderKernel.Shell
