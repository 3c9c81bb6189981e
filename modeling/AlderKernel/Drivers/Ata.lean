import AlderKernel.Machine.Words
import AlderKernel.Fs.Fat16

/-!
# Sectors over the ports of a drive

`kernel/drivers/ata.c` splits the address of a sector over four registers of 28 bits altogether.
The drive puts them together when it is given the command, so a transfer reaches the sector that
was asked for exactly when its address fits.
-/

namespace AlderKernel.Drivers

open Machine AlderKernel.Fs

/-- `ATA_DATA`. -/
def ataData : U16 := 0x1F0#16

/-- `ATA_SECTOR_CNT`. -/
def ataSectorCnt : U16 := 0x1F2#16

/-- `ATA_LBA_LO`. -/
def ataLbaLo : U16 := 0x1F3#16

/-- `ATA_LBA_MID`. -/
def ataLbaMid : U16 := 0x1F4#16

/-- `ATA_LBA_HI`. -/
def ataLbaHi : U16 := 0x1F5#16

/-- `ATA_DRIVE_HEAD`. -/
def ataDriveHead : U16 := 0x1F6#16

/-- `ATA_STATUS`. -/
def ataStatus : U16 := 0x1F7#16

/-- `ATA_COMMAND`. -/
def ataCommand : U16 := 0x1F7#16

/-- `ATA_CMD_READ`. -/
def ataCmdRead : U8 := 0x20#8

/-- `ATA_CMD_WRITE`. -/
def ataCmdWrite : U8 := 0x30#8

/-- `ATA_STATUS_ERR`. -/
def ataStatusErr : U8 := 0x01#8

/-- `ATA_STATUS_DRQ`. -/
def ataStatusDrq : U8 := 0x08#8

/-- `ATA_STATUS_BSY`. -/
def ataStatusBsy : U8 := 0x80#8

/-- The `i`-th `unsigned short` of a sector buffer. -/
def halfword (b : Sector) (i : ℕ) : U16 := b.byte (2 * i + 1) ++ b.byte (2 * i)

/-- Store the `i`-th `unsigned short` of a sector buffer. -/
def setHalfword (b : Sector) (i : ℕ) (v : U16) : Sector :=
  (b.set (2 * i) (v.extractLsb' 0 8)).set (2 * i + 1) (v.extractLsb' 8 8)

/-- One word that goes through the data port: its direction, its sector and its place there. -/
structure Transfer where
  write : Bool
  sector : BitVec 28
  word : ℕ
  deriving DecidableEq

/-- The master drive of the primary bus. It shows any values in its status register. -/
structure Drive where
  sectors : BitVec 28 → Sector
  /-- The values of the status register from now on, one for each time that it is read. -/
  status : ℕ → U8
  driveHead : U8
  sectorCnt : U8
  lbaLo : U8
  lbaMid : U8
  lbaHi : U8
  /-- The last command, with the sector that it begins with and the number of sectors. -/
  command : U8
  first : BitVec 28
  count : ℕ
  /-- How many words the command has transferred. -/
  words : ℕ
  /-- Every word that has been transferred, oldest first. -/
  transfers : List Transfer

namespace Drive

/-- The address that the registers hold. -/
def address (d : Drive) : BitVec 28 := d.driveHead.extractLsb' 0 4 ++ d.lbaHi ++ d.lbaMid ++ d.lbaLo

/-- The sector and the place of the next word. -/
def next (d : Drive) (write : Bool) : Transfer :=
  ⟨write, d.first + BitVec.ofNat 28 (d.words / 256), d.words % 256⟩

/-- A byte written to a port. A sector count of 0 stands for 256 sectors, and a command is for the
master drive in LBA mode. -/
def outb (port : U16) (v : U8) (d : Drive) : Drive :=
  if port = ataDriveHead then { d with driveHead := v }
  else if port = ataSectorCnt then { d with sectorCnt := v }
  else if port = ataLbaLo then { d with lbaLo := v }
  else if port = ataLbaMid then { d with lbaMid := v }
  else if port = ataLbaHi then { d with lbaHi := v }
  else if port = ataCommand ∧ d.driveHead &&& 0x50#8 = 0x40#8 then
    { d with
      command := v
      first := d.address
      count := if d.sectorCnt = 0#8 then 256 else d.sectorCnt.toNat
      words := 0 }
  else d

/-- A byte read from a port. -/
def inb (port : U16) (d : Drive) : U8 × Drive :=
  if port = ataStatus then (d.status 0, { d with status := fun n => d.status (n + 1) })
  else (0#8, d)

/-- A word read from a port. -/
def inw (port : U16) (d : Drive) : U16 × Drive :=
  if port = ataData ∧ d.command = ataCmdRead ∧ d.words < 256 * d.count then
    let t := d.next false
    (halfword (d.sectors t.sector) t.word,
      { d with words := d.words + 1, transfers := d.transfers ++ [t] })
  else (0#16, d)

/-- A word written to a port. -/
def outw (port : U16) (v : U16) (d : Drive) : Drive :=
  if port = ataData ∧ d.command = ataCmdWrite ∧ d.words < 256 * d.count then
    let t := d.next true
    { d with
      sectors := Function.update d.sectors t.sector (setHalfword (d.sectors t.sector) t.word v)
      words := d.words + 1
      transfers := d.transfers ++ [t] }
  else d

end Drive

/-- The loop of `ata_wait_ready`, with the number of polls that are left. -/
def pollReady : ℕ → Drive → Bool × Drive
  | 0, d => (false, d)
  | polls + 1, d =>
    let status := d.inb ataStatus
    if status.1 &&& ataStatusBsy = 0#8 then (status.1 &&& ataStatusErr = 0#8, status.2)
    else pollReady polls status.2

/-- `ata_wait_ready`. -/
def ataWaitReady (d : Drive) : Bool × Drive := pollReady 100000 d

/-- The loop of `ata_wait_drq`, with the number of polls that are left. -/
def pollDrq : ℕ → Drive → Bool × Drive
  | 0, d => (false, d)
  | polls + 1, d =>
    let status := d.inb ataStatus
    if status.1 &&& ataStatusErr ≠ 0#8 then (false, status.2)
    else if status.1 &&& ataStatusDrq ≠ 0#8 then (true, status.2)
    else pollDrq polls status.2

/-- `ata_wait_drq`. -/
def ataWaitDrq (d : Drive) : Bool × Drive := pollDrq 100000 d

/-- The registers that both functions write, up to the command. -/
def selectSector (command : U8) (lba : U32) (d : Drive) : Drive :=
  let d := d.outb ataDriveHead ((0xE0#32 ||| ((lba >>> 24) &&& 0x0F#32)).setWidth 8)
  let d := d.outb ataSectorCnt 1#8
  let d := d.outb ataLbaLo ((lba &&& 0xFF#32).setWidth 8)
  let d := d.outb ataLbaMid (((lba >>> 8) &&& 0xFF#32).setWidth 8)
  let d := d.outb ataLbaHi (((lba >>> 16) &&& 0xFF#32).setWidth 8)
  d.outb ataCommand command

/-- The first `n` rounds of the loop `buf16[i] = inw(ATA_DATA)`. -/
def readWords : ℕ → Sector → Drive → Sector × Drive
  | 0, buffer, d => (buffer, d)
  | n + 1, buffer, d =>
    let r := readWords n buffer d
    let w := r.2.inw ataData
    (setHalfword r.1 n w.1, w.2)

/-- The first `n` rounds of the loop `outw(ATA_DATA, buf16[i])`. -/
def writeWords : ℕ → Sector → Drive → Drive
  | 0, _, d => d
  | n + 1, buffer, d => (writeWords n buffer d).outw ataData (halfword buffer n)

/-- `ata_read_sector`: the value returned, what is in the buffer, and the drive. -/
def ataReadSector (lba : U32) (buffer : Sector) (d : Drive) : (Bool × Sector) × Drive :=
  let ready := ataWaitReady d
  if ¬ ready.1 then ((false, buffer), ready.2) else
  let drq := ataWaitDrq (selectSector ataCmdRead lba ready.2)
  if ¬ drq.1 then ((false, buffer), drq.2) else
  let r := readWords 256 buffer drq.2
  ((true, r.1), r.2)

/-- `ata_write_sector`: the value returned, and the drive. -/
def ataWriteSector (lba : U32) (buffer : Sector) (d : Drive) : Bool × Drive :=
  let ready := ataWaitReady d
  if ¬ ready.1 then (false, ready.2) else
  let drq := ataWaitDrq (selectSector ataCmdWrite lba ready.2)
  if ¬ drq.1 then (false, drq.2) else
  (true, writeWords 256 buffer drq.2)


/-- The drive is at the beginning of a command for one sector, and has the sectors of `d`. -/
structure Drive.Begins (d : Drive) (command : U8) (first : BitVec 28) (d' : Drive) : Prop where
  sectors : d'.sectors = d.sectors
  transfers : d'.transfers = d.transfers
  command : d'.command = command
  first : d'.first = first
  count : d'.count = 1
  words : d'.words = 0

/-- A call of `ata_read_sector` or `ata_write_sector`, with its buffer. -/
inductive SectorCall
  | read (buffer : Sector)
  | write (buffer : Sector)

/-- Make a call. -/
def SectorCall.run (lba : U32) : SectorCall → Drive → Bool × Drive
  | .read buffer, d => ((ataReadSector lba buffer d).1.1, (ataReadSector lba buffer d).2)
  | .write buffer, d => ataWriteSector lba buffer d

/-- The words of a sector, in order. -/
def sectorTransfers (write : Bool) (s : BitVec 28) (n : ℕ) : List Transfer :=
  (List.range n).map fun word => ⟨write, s, word⟩

section

variable {d d' : Drive} {lba : U32} {command : U8} {first : BitVec 28} {b buffer : Sector}

/-- From `d` to `d'` the drive has transferred exactly the words of sector number `n`. -/
def Drive.TransferredSector (d d' : Drive) (n : ℕ) : Prop :=
  ∃ write, ∃ s : BitVec 28, s.toNat = n ∧
    d'.transfers = d.transfers ++ sectorTransfers write s 256

/-- The loop of `ata_wait_ready` only reads the status. -/
theorem pollReady_drive (polls : ℕ) (d : Drive) :
    ∃ status, (pollReady polls d).2 = { d with status := status } := by
  induction polls generalizing d with
  | zero => exact ⟨d.status, rfl⟩
  | succ polls ih =>
    simp only [pollReady, Drive.inb, if_true]
    split_ifs
    · exact ⟨_, rfl⟩
    · obtain ⟨status, h⟩ := ih { d with status := fun n => d.status (n + 1) }
      exact ⟨status, h⟩

/-- Bytes that are written to the ports read nothing from the status register. -/
@[simp] theorem Drive.outb_status (port : U16) (v : U8) (d : Drive) :
    (d.outb port v).status = d.status := by
  unfold Drive.outb
  split_ifs <;> rfl

/-- A drive that is ready ends the loop of `ata_wait_ready`. -/
theorem pollReady_ready (h : d.status 0 &&& (ataStatusBsy ||| ataStatusErr) = 0#8) (polls : ℕ) :
    pollReady (polls + 1) d = (true, { d with status := fun n => d.status (n + 1) }) := by
  have hbits : ∀ status : U8, status &&& (ataStatusBsy ||| ataStatusErr) = 0#8 →
      status &&& ataStatusBsy = 0#8 ∧ status &&& ataStatusErr = 0#8 := by
    decide
  simp [pollReady, Drive.inb, hbits _ h]

/-- A drive that has data or takes them ends the loop of `ata_wait_drq`. -/
theorem pollDrq_drq (h : d.status 0 &&& (ataStatusErr ||| ataStatusDrq) = ataStatusDrq)
    (polls : ℕ) :
    (pollDrq (polls + 1) d).1 = true := by
  have hbits : ∀ status : U8, status &&& (ataStatusErr ||| ataStatusDrq) = ataStatusDrq →
      status &&& ataStatusErr = 0#8 ∧ status &&& ataStatusDrq ≠ 0#8 := by
    decide
  simp [pollDrq, Drive.inb, hbits _ h]

/-- The loop of `ata_wait_drq` only reads the status. -/
theorem pollDrq_drive (polls : ℕ) (d : Drive) :
    ∃ status, (pollDrq polls d).2 = { d with status := status } := by
  induction polls generalizing d with
  | zero => exact ⟨d.status, rfl⟩
  | succ polls ih =>
    simp only [pollDrq, Drive.inb, if_true]
    split_ifs
    · exact ⟨_, rfl⟩
    · exact ⟨_, rfl⟩
    · obtain ⟨status, h⟩ := ih { d with status := fun n => d.status (n + 1) }
      exact ⟨status, h⟩

/-- The byte `v & 0xFF`. -/
theorem lowByte_toNat (v : U32) : ((v &&& 0xFF#32).setWidth 8).toNat = v.toNat % 256 := by
  have hmask := Nat.and_two_pow_sub_one_eq_mod v.toNat 8
  rw [BitVec.toNat_setWidth, BitVec.toNat_and]
  simp at hmask ⊢
  omega

/-- The bits 24 to 27 of an address. -/
theorem topNibble_eq (lba : U32) :
    (lba >>> 24) &&& 0x0F#32 = (lba.extractLsb' 24 4).setWidth 32 := by
  have hmask := Nat.and_two_pow_sub_one_eq_mod (lba.toNat / 2 ^ 24) 4
  apply BitVec.eq_of_toNat_eq
  simp [Nat.shiftRight_eq_div_pow] at hmask ⊢
  omega

/-- The bytes that are written to the registers select the master drive in LBA mode, and hold the
low 28 bits of the address. -/
theorem register_bits (lba : U32) :
    let head : U8 := (0xE0#32 ||| ((lba >>> 24) &&& 0x0F#32)).setWidth 8
    head &&& 0x50#8 = 0x40#8 ∧
      head.extractLsb' 0 4 ++ ((lba >>> 16) &&& 0xFF#32).setWidth 8 ++
        ((lba >>> 8) &&& 0xFF#32).setWidth 8 ++ (lba &&& 0xFF#32).setWidth 8 = lba.setWidth 28 := by
  have hhead (nibble : BitVec 4) : let head : U8 := (0xE0#32 ||| nibble.setWidth 32).setWidth 8
      head &&& 0x50#8 = 0x40#8 ∧ head.extractLsb' 0 4 = nibble := by
    decide +revert
  rw [topNibble_eq]
  refine ⟨(hhead _).1, ?_⟩
  rw [(hhead _).2]
  apply BitVec.eq_of_toNat_eq
  rw [append_toNat, append_toNat, append_toNat, lowByte_toNat, lowByte_toNat, lowByte_toNat]
  simp only [BitVec.toNat_ushiftRight, Nat.shiftRight_eq_div_pow, BitVec.extractLsb'_toNat,
    BitVec.toNat_setWidth]
  omega

/-- After the registers are written the drive is at the beginning of the command, for the sector of
the low 28 bits of the address. -/
theorem selectSector_begins (command : U8) (lba : U32) (d : Drive) :
    d.Begins command (lba.setWidth 28) (selectSector command lba d) := by
  obtain ⟨hmaster, haddress⟩ := register_bits lba
  unfold selectSector
  generalize (0xE0#32 ||| ((lba >>> 24) &&& 0x0F#32)).setWidth 8 = head at *
  generalize (lba &&& 0xFF#32).setWidth 8 = lo at *
  generalize ((lba >>> 8) &&& 0xFF#32).setWidth 8 = mid at *
  generalize ((lba >>> 16) &&& 0xFF#32).setWidth 8 = hi at *
  constructor <;>
    simp [Drive.outb, ataDriveHead, ataSectorCnt, ataLbaLo, ataLbaMid, ataLbaHi, ataCommand,
      hmaster, Drive.address, haddress]

/-- When the words are transferred the drive is at the beginning of the command. -/
theorem ataWaitDrq_begins (command : U8) (lba : U32) (d : Drive) :
    d.Begins command (lba.setWidth 28)
      (ataWaitDrq (selectSector command lba (ataWaitReady d).2)).2 := by
  obtain ⟨ready, hready⟩ := pollReady_drive 100000 d
  obtain ⟨drq, hdrq⟩ := pollDrq_drive 100000 (selectSector command lba (ataWaitReady d).2)
  have h := selectSector_begins command lba (ataWaitReady d).2
  unfold ataWaitDrq
  rw [hdrq]
  have hsectors : (ataWaitReady d).2.sectors = d.sectors := by simp [ataWaitReady, hready]
  have htransfers : (ataWaitReady d).2.transfers = d.transfers := by simp [ataWaitReady, hready]
  exact ⟨h.sectors.trans hsectors, h.transfers.trans htransfers, h.command, h.first, h.count,
    h.words⟩

/-- The bytes of a buffer after one of its words is stored. -/
theorem setHalfword_byte {i j : ℕ} (v : U16) (hj : j < 512) :
    (setHalfword b i v).byte j =
      if j = 2 * i then v.extractLsb' 0 8 else if j = 2 * i + 1 then v.extractLsb' 8 8
      else b.byte j := by
  unfold setHalfword
  rw [Buffer.byte_set hj, Buffer.byte_set hj]
  split_ifs <;> first | rfl | omega

/-- The two parts of an appended word. -/
theorem append_parts {m n : ℕ} (hi : BitVec m) (lo : BitVec n) :
    (hi ++ lo).extractLsb' 0 n = lo ∧ (hi ++ lo).extractLsb' n m = hi := by
  constructor
  · ext i hlt
    simp [BitVec.getLsbD_append, hlt]
  · ext i hlt
    simp [BitVec.getLsbD_append, hlt]

/-- The bytes of a word of a buffer. -/
theorem halfword_bytes (b : Sector) (i : ℕ) :
    (halfword b i).extractLsb' 0 8 = b.byte (2 * i) ∧
      (halfword b i).extractLsb' 8 8 = b.byte (2 * i + 1) :=
  append_parts (b.byte (2 * i + 1)) (b.byte (2 * i))

/-- The words that are read are those of the sector of the command, one after the other. -/
theorem readWords_spec (h : d.Begins ataCmdRead first d') {n : ℕ} (hn : n ≤ 256) :
    let r := readWords n b d'
    (∀ j < 512, r.1.byte j = if j < 2 * n then (d.sectors first).byte j else b.byte j) ∧
      r.2 = { d' with
        words := n, transfers := d.transfers ++ sectorTransfers false first n } := by
  induction n with
  | zero =>
    refine ⟨fun j _ => by simp [readWords], ?_⟩
    obtain ⟨-, htransfers, -, -, -, hwords⟩ := h
    cases d'
    simp_all [readWords, sectorTransfers]
  | succ n ih =>
    obtain ⟨hbytes, hdrive⟩ := ih (by omega)
    have hword : (readWords n b d').2.inw ataData =
        (halfword (d.sectors first) n, { d' with
          words := n + 1
          transfers := d.transfers ++ sectorTransfers false first (n + 1) }) := by
      rw [hdrive]
      simp [Drive.inw, Drive.next, h.command, h.count, h.first, h.sectors, sectorTransfers,
        List.range_succ, Nat.div_eq_of_lt (by omega : n < 256),
        Nat.mod_eq_of_lt (by omega : n < 256)]
      omega
    simp only [readWords, hword, and_true]
    intro j hj
    rw [setHalfword_byte _ hj, (halfword_bytes _ n).1, (halfword_bytes _ n).2, hbytes j hj]
    grind

/-- The words that are written go to the sector of the command, one after the other. -/
theorem writeWords_spec (buffer : Sector) (h : d.Begins ataCmdWrite first d') {n : ℕ}
    (hn : n ≤ 256) :
    ∃ s : Sector,
      (∀ j < 512, s.byte j = if j < 2 * n then buffer.byte j else (d.sectors first).byte j) ∧
        writeWords n buffer d' = { d' with
          sectors := Function.update d.sectors first s
          words := n, transfers := d.transfers ++ sectorTransfers true first n } := by
  induction n with
  | zero =>
    refine ⟨d.sectors first, fun j _ => by simp, ?_⟩
    obtain ⟨hsectors, htransfers, -, -, -, hwords⟩ := h
    cases d'
    simp_all [writeWords, sectorTransfers]
  | succ n ih =>
    obtain ⟨s, hbytes, hdrive⟩ := ih (by omega)
    refine ⟨setHalfword s n (halfword buffer n), fun j hj => ?_, ?_⟩
    · rw [setHalfword_byte _ hj, (halfword_bytes _ n).1, (halfword_bytes _ n).2, hbytes j hj]
      grind
    · rw [writeWords, hdrive]
      have hlt : n < 256 := by omega
      simp [Drive.outw, Drive.next, h.command, h.count, h.first, sectorTransfers,
        List.range_succ, Nat.div_eq_of_lt hlt, Nat.mod_eq_of_lt hlt, hlt]

/-- What a read does that returns 1. -/
theorem ataReadSector_spec (h : (ataReadSector lba buffer d).1.1 = true) :
    (ataReadSector lba buffer d).1.2 = d.sectors (lba.setWidth 28) ∧
      (ataReadSector lba buffer d).2.sectors = d.sectors ∧
      (ataReadSector lba buffer d).2.transfers =
        d.transfers ++ sectorTransfers false (lba.setWidth 28) 256 := by
  have hbegins := ataWaitDrq_begins ataCmdRead lba d
  obtain ⟨hbytes, hdrive⟩ := readWords_spec (b := buffer) hbegins (le_refl 256)
  have hsector : (readWords 256 buffer
      (ataWaitDrq (selectSector ataCmdRead lba (ataWaitReady d).2)).2).1 =
        d.sectors (lba.setWidth 28) := by
    refine Buffer.ext fun j hj => ?_
    rw [hbytes j hj, if_pos (by omega)]
  unfold ataReadSector at *
  by_cases hready : (ataWaitReady d).1 = true
  · by_cases hdrq : (ataWaitDrq (selectSector ataCmdRead lba (ataWaitReady d).2)).1 = true
    · simp [hready, hdrq, hsector, hdrive, hbegins.sectors]
    · simp [hready, hdrq] at h
  · simp [hready] at h

/-- What a write does that returns 1. -/
theorem ataWriteSector_spec (h : (ataWriteSector lba buffer d).1 = true) :
    (ataWriteSector lba buffer d).2.sectors =
        Function.update d.sectors (lba.setWidth 28) buffer ∧
      (ataWriteSector lba buffer d).2.transfers =
        d.transfers ++ sectorTransfers true (lba.setWidth 28) 256 := by
  have hbegins := ataWaitDrq_begins ataCmdWrite lba d
  obtain ⟨s, hbytes, hdrive⟩ := writeWords_spec buffer hbegins (le_refl 256)
  have hs : s = buffer := by
    refine Buffer.ext fun j hj => ?_
    rw [hbytes j hj, if_pos (by omega)]
  unfold ataWriteSector at *
  by_cases hready : (ataWaitReady d).1 = true
  · by_cases hdrq : (ataWaitDrq (selectSector ataCmdWrite lba (ataWaitReady d).2)).1 = true
    · simp [hready, hdrq, hs, hdrive]
    · simp [hready, hdrq] at h
  · simp [hready] at h

/-- A call that returns 1 transfers the sector of the low 28 bits of the address. -/
theorem SectorCall.run_transfers {call : SectorCall} (h : (call.run lba d).1 = true) :
    d.TransferredSector (call.run lba d).2 (lba.toNat % 2 ^ 28) := by
  cases call with
  | read buffer => exact ⟨false, lba.setWidth 28, by simp, (ataReadSector_spec h).2.2⟩
  | write buffer => exact ⟨true, lba.setWidth 28, by simp, (ataWriteSector_spec h).2⟩

/-- Only the words of one sector have been transferred. -/
theorem Drive.TransferredSector.unique {m n : ℕ} (hm : d.TransferredSector d' m)
    (hn : d.TransferredSector d' n) : m = n := by
  obtain ⟨write, s, rfl, hs⟩ := hm
  obtain ⟨write', s', rfl, hs'⟩ := hn
  rw [hs, List.append_cancel_left_eq] at hs'
  have hword : ⟨write, s, 0⟩ ∈ sectorTransfers write s 256 := by simp [sectorTransfers]
  rw [hs'] at hword
  simp only [sectorTransfers, List.mem_map, Transfer.mk.injEq] at hword
  obtain ⟨_, _, _, rfl, _⟩ := hword
  rfl

/-- A drive that is ready, and then has data or takes them, serves a call. -/
theorem SectorCall.run_ready (call : SectorCall) (lba : U32)
    (hready : d.status 0 &&& (ataStatusBsy ||| ataStatusErr) = 0#8)
    (hdrq : d.status 1 &&& (ataStatusErr ||| ataStatusDrq) = ataStatusDrq) :
    (call.run lba d).1 = true := by
  have hwait : ataWaitReady d = (true, { d with status := fun n => d.status (n + 1) }) :=
    pollReady_ready hready 99999
  have hone : (ataWaitReady d).1 = true := by rw [hwait]
  have hdata (command : U8) :
      (ataWaitDrq (selectSector command lba (ataWaitReady d).2)).1 = true := by
    apply pollDrq_drq
    simpa [selectSector, hwait] using hdrq
  cases call with
  | read buffer => simp [SectorCall.run, ataReadSector, hone, hdata]
  | write buffer => simp [SectorCall.run, ataWriteSector, hone, hdata]

/-- The sector that is transferred. A read or write of address `lba` that returns 1 transfers
sector `lba` if and only if `lba` is below `2 ^ 28`; two of them transfer different sectors if
and only if their addresses differ in the low 28 bits. -/
theorem transferred_sector_iff (call other : SectorCall) (lba otherLba : U32) (d e : Drive)
    (h : (call.run lba d).1 = true) (hother : (other.run otherLba e).1 = true) :
    (d.TransferredSector (call.run lba d).2 lba.toNat ↔ lba.toNat < 2 ^ 28) ∧
      ((∀ n, d.TransferredSector (call.run lba d).2 n →
          ¬ e.TransferredSector (other.run otherLba e).2 n) ↔
        lba.toNat % 2 ^ 28 ≠ otherLba.toNat % 2 ^ 28) := by
  have hlow := call.run_transfers h
  have hotherLow := other.run_transfers hother
  refine ⟨⟨fun hlba => ?_, fun hlt => ?_⟩, fun hapart hsame => ?_, fun hne n hn hn' => ?_⟩
  · rw [hlba.unique hlow]
    exact Nat.mod_lt _ (by simp)
  · rwa [Nat.mod_eq_of_lt hlt] at hlow
  · rw [hsame] at hlow
    exact hapart _ hlow hotherLow
  · apply hne
    rw [hlow.unique hn, hotherLow.unique hn']

/-- A drive of zeros that is never busy. -/
def idleDrive : Drive where
  sectors := fun _ => .zero
  status := fun _ => ataStatusDrq
  driveHead := 0#8
  sectorCnt := 0#8
  lbaLo := 0#8
  lbaMid := 0#8
  lbaHi := 0#8
  command := 0#8
  first := 0#28
  count := 0
  words := 0
  transfers := []

/-- Sector 2048 is read, and it is not the one that a write to 2049 reaches. -/
theorem idleDrive_transferred :
    idleDrive.TransferredSector ((SectorCall.read .zero).run 2048#32 idleDrive).2 2048 ∧
      ∀ n, idleDrive.TransferredSector ((SectorCall.read .zero).run 2048#32 idleDrive).2 n →
        ¬ idleDrive.TransferredSector ((SectorCall.write .zero).run 2049#32 idleDrive).2 n := by
  have h := transferred_sector_iff (.read .zero) (.write .zero) 2048#32 2049#32 idleDrive idleDrive
    (SectorCall.run_ready _ _ (by decide) (by decide))
    (SectorCall.run_ready _ _ (by decide) (by decide))
  exact ⟨h.1.mpr (by decide), h.2.mpr (by decide)⟩

/-- A write to address `2 ^ 28` returns 1 and goes to sector 0. -/
theorem idleDrive_wrapped :
    ((SectorCall.write .zero).run 0x10000000#32 idleDrive).1 = true ∧
      ¬ idleDrive.TransferredSector ((SectorCall.write .zero).run 0x10000000#32 idleDrive).2
        (0x10000000#32).toNat ∧
      idleDrive.TransferredSector ((SectorCall.write .zero).run 0x10000000#32 idleDrive).2 0 := by
  have hone : ((SectorCall.write .zero).run 0x10000000#32 idleDrive).1 = true :=
    SectorCall.run_ready _ _ (by decide) (by decide)
  have hzero := SectorCall.run_transfers hone
  simp only [BitVec.toNat_ofNat, Nat.reducePow, Nat.reduceMod] at *
  refine ⟨hone, fun hwrapped => ?_, hzero⟩
  have heq := hwrapped.unique hzero
  simp at heq

end

end AlderKernel.Drivers
