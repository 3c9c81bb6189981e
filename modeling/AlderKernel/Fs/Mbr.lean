import AlderKernel.Fs.Disk

/-!
# The partition table

`kernel/fs/mbr.c`: four entries in sector 0, read and written one at a time. Over any sequence
of writes the table is an array of four partitions.
-/

namespace AlderKernel.Fs

open Machine

/-- `mbr_partition_t`. -/
structure MbrPartition where
  bootable : U8
  type : U8
  lbaStart : U32
  sectorCount : U32
  deriving DecidableEq

/-- `MBR_PARTITION_TABLE_OFFSET`. -/
def mbrPartitionTableOffset : ℕ := 446

/-- `MBR_SIGNATURE_OFFSET`. -/
def mbrSignatureOffset : ℕ := 510

/-- `MBR_ENTRY_SIZE`. -/
def mbrEntrySize : ℕ := 16

/-- An unused slot, which `mbr_read_partitions` leaves zeroed. -/
def MbrPartition.unused : MbrPartition := ⟨0#8, 0#8, 0#32, 0#32⟩

/-- The test `signature == 0xAA55`. -/
def hasSignature (sector : Sector) : Bool := word16 sector mbrSignatureOffset = 0xAA55#32

/-- The bytes of an entry of the table. -/
def mbrEntry (sector : Sector) (i : ℕ) : Buffer mbrEntrySize :=
  sector.slice (mbrPartitionTableOffset + i * mbrEntrySize) mbrEntrySize

/-- `b[i] | (b[i + 1] << 8) | (b[i + 2] << 16) | (b[i + 3] << 24)`. -/
def word32 {n : ℕ} (b : Buffer n) (i : ℕ) : U32 :=
  (b.byte i).setWidth 32 ||| (b.byte (i + 1)).setWidth 32 <<< 8 |||
    (b.byte (i + 2)).setWidth 32 <<< 16 ||| (b.byte (i + 3)).setWidth 32 <<< 24

/-- What `mbr_read_partitions` makes of an entry. -/
def parseEntry (entry : Buffer mbrEntrySize) : MbrPartition where
  bootable := if entry.byte 0 = 0x80#8 then 1#8 else 0#8
  type := entry.byte 4
  lbaStart := word32 entry 8
  sectorCount := word32 entry 12

/-- The loop of `mbr_read_partitions` over the slots: the number of used ones, and what is stored
in `out`. -/
def readEntries (sector : Sector) :
    List (Fin 4) → ℕ → (Fin 4 → MbrPartition) → ℕ × (Fin 4 → MbrPartition)
  | [], used, out => (used, out)
  | i :: slots, used, out =>
    let entry := parseEntry (mbrEntry sector i)
    readEntries sector slots (if entry.type ≠ 0#8 then used + 1 else used)
      (Function.update out i entry)

/-- The bytes that `mbr_write_partition` writes to an entry. -/
def entryBytes (bootable type : U8) (lbaStart sectorCount : U32) : Buffer mbrEntrySize :=
  .ofList <|
    [if bootable ≠ 0#8 then 0x80#8 else 0x00#8, 0#8, 0#8, 0#8, type, 0#8, 0#8, 0#8] ++
    [byteOf lbaStart 0, byteOf lbaStart 1, byteOf lbaStart 2, byteOf lbaStart 3] ++
    [byteOf sectorCount 0, byteOf sectorCount 1, byteOf sectorCount 2, byteOf sectorCount 3]

/-- The sector 0 that `mbr_write_partition` writes in place of `sector`. -/
def withEntry (sector : Sector) (i : ℕ) (entry : Buffer mbrEntrySize) : Sector :=
  let sector := if hasSignature sector then sector else .zero
  let sector := sector.paste (mbrPartitionTableOffset + i * mbrEntrySize) entry
  (sector.set mbrSignatureOffset 0x55#8).set (mbrSignatureOffset + 1) 0xAA#8

section

variable {σ : Type} (a : Ata σ)

/-- `mbr_read_partitions`: the value returned, and what is stored in `out`. -/
def mbrReadPartitions (d : σ) : (ℕ × (Fin 4 → MbrPartition)) × σ :=
  let r := a.readSector 0#32 d
  if ¬ r.1.1 then ((0, fun _ => .unused), r.2) else
  if ¬ hasSignature r.1.2 then ((0, fun _ => .unused), r.2) else
  (readEntries r.1.2 (List.finRange 4) 0 fun _ => .unused, r.2)

/-- `mbr_write_partition`. -/
def mbrWritePartition (index : ℤ) (bootable type : U8) (lbaStart sectorCount : U32) (d : σ) :
    Bool × σ :=
  if index < 0 ∨ 3 < index then (false, d) else
  let r := a.readSector 0#32 d
  if ¬ r.1.1 then (false, r.2) else
  a.writeSector 0#32
    (withEntry r.1.2 index.toNat (entryBytes bootable type lbaStart sectorCount)) r.2

end

/-- The arguments of a call of `mbr_write_partition`. -/
structure MbrWrite where
  index : ℤ
  bootable : U8
  type : U8
  lbaStart : U32
  sectorCount : U32

/-- Make a call. -/
def MbrWrite.run {σ : Type} (a : Ata σ) (w : MbrWrite) (d : σ) : Bool × σ :=
  mbrWritePartition a w.index w.bootable w.type w.lbaStart w.sectorCount d

/-- Make calls one after the other. -/
def writeAll {σ : Type} (a : Ata σ) (ws : List MbrWrite) (d : σ) : σ :=
  ws.foldl (fun d w => (w.run a d).2) d

/-- The slot of a call, when its index is valid. -/
def MbrWrite.slot (w : MbrWrite) : Option (Fin 4) :=
  if h : 0 ≤ w.index ∧ w.index ≤ 3 then some ⟨w.index.toNat, by omega⟩ else none

/-- The partition that a call describes. -/
def MbrWrite.partition (w : MbrWrite) : MbrPartition :=
  ⟨if w.bootable ≠ 0#8 then 1#8 else 0#8, w.type, w.lbaStart, w.sectorCount⟩

/-- The last call with a valid index for the slot. -/
def lastWrite (ws : List MbrWrite) (i : Fin 4) : Option MbrWrite :=
  ws.reverse.find? fun w => w.slot = some i

/-- The table in a sector 0: unused slots where there is no signature. -/
def tableOf (sector : Sector) (i : Fin 4) : MbrPartition :=
  if hasSignature sector then parseEntry (mbrEntry sector i) else .unused

/-- The number of slots with a type. -/
def usedSlots (table : Fin 4 → MbrPartition) : ℕ :=
  (List.finRange 4).countP fun i => (table i).type ≠ 0#8

section

variable {sector : Sector} {entry : Buffer mbrEntrySize} {d : Disk} {w : MbrWrite} {i j : Fin 4}

/-- The four bytes of a word, read back. -/
theorem word32_bytes {b : Buffer mbrEntrySize} {k : ℕ} {v : U32}
    (h : ∀ n < 4, b.byte (k + n) = byteOf v n) : word32 b k = v := by
  have h0 := h 0 (by omega)
  have h1 := h 1 (by omega)
  have h2 := h 2 (by omega)
  have h3 := h 3 (by omega)
  unfold word32
  rw [show b.byte k = byteOf v 0 from h0, h1, h2, h3]
  unfold byteOf
  ext n hn
  simp
  grind

/-- An entry is read back as it was described. -/
theorem parseEntry_entryBytes (w : MbrWrite) :
    parseEntry (entryBytes w.bootable w.type w.lbaStart w.sectorCount) = w.partition := by
  have hstatus : (entryBytes w.bootable w.type w.lbaStart w.sectorCount).byte 0 =
      if w.bootable ≠ 0#8 then 0x80#8 else 0x00#8 := rfl
  have htype : (entryBytes w.bootable w.type w.lbaStart w.sectorCount).byte 4 = w.type := rfl
  have hstart : word32 (entryBytes w.bootable w.type w.lbaStart w.sectorCount) 8 = w.lbaStart :=
    word32_bytes fun n hn => by interval_cases n <;> rfl
  have hcount : word32 (entryBytes w.bootable w.type w.lbaStart w.sectorCount) 12 =
      w.sectorCount := word32_bytes fun n hn => by interval_cases n <;> rfl
  unfold parseEntry MbrWrite.partition
  rw [hstatus, htype, hstart, hcount]
  by_cases hboot : w.bootable = 0#8
  · simp [hboot]
  · simp [hboot]

/-- The sector that is written has the signature. -/
theorem hasSignature_withEntry (sector : Sector) (i : ℕ) (entry : Buffer mbrEntrySize) :
    hasSignature (withEntry sector i entry) = true := by
  unfold hasSignature withEntry word16
  dsimp only
  rw [Buffer.byte_set_of_ne (by simp), Buffer.byte_set (by decide), Buffer.byte_set (by decide),
    if_pos rfl, if_pos rfl]
  decide

/-- Writing the signature leaves the entries alone. -/
theorem mbrEntry_signature (sector : Sector) (i : Fin 4) (lo hi : U8) :
    mbrEntry ((sector.set mbrSignatureOffset lo).set (mbrSignatureOffset + 1) hi) i =
      mbrEntry sector i := by
  refine Buffer.ext fun k hk => ?_
  have hi := i.isLt
  have hlt : mbrPartitionTableOffset + i.val * mbrEntrySize + k < mbrSignatureOffset := by
    unfold mbrEntrySize at hk
    unfold mbrPartitionTableOffset mbrEntrySize mbrSignatureOffset
    omega
  unfold mbrEntry
  rw [Buffer.byte_slice hk, Buffer.byte_slice hk, Buffer.byte_set_of_ne (by omega),
    Buffer.byte_set_of_ne (by omega)]

/-- A write replaces one entry of the table and leaves the others. -/
theorem tableOf_withEntry (sector : Sector) (i : Fin 4) (entry : Buffer mbrEntrySize) :
    tableOf (withEntry sector i entry) =
      Function.update (tableOf sector) i (parseEntry entry) := by
  funext j
  have hi := i.isLt
  have hj := j.isLt
  unfold tableOf
  rw [if_pos (hasSignature_withEntry sector i entry)]
  unfold withEntry
  dsimp only
  rw [mbrEntry_signature]
  by_cases hsame : j = i
  · subst hsame
    have hself : mbrEntry ((if hasSignature sector then sector else .zero).paste
        (mbrPartitionTableOffset + j * mbrEntrySize) entry) j = entry := by
      refine Buffer.slice_paste_self ?_
      unfold mbrPartitionTableOffset mbrEntrySize
      omega
    rw [hself, Function.update_self]
  · have hne : j.val ≠ i.val := fun heq => hsame (Fin.ext heq)
    have hother : mbrEntry ((if hasSignature sector then sector else .zero).paste
        (mbrPartitionTableOffset + i * mbrEntrySize) entry) j =
          mbrEntry (if hasSignature sector then sector else .zero) j := by
      refine Buffer.slice_paste_of_apart ?_ ?_
      · unfold mbrPartitionTableOffset mbrEntrySize
        omega
      · unfold mbrEntrySize
        omega
    rw [hother, Function.update_of_ne hsame]
    by_cases hsig : hasSignature sector
    · simp [hsig]
    · have hzero : parseEntry (mbrEntry .zero j) = .unused := by
        have hentry : mbrEntry .zero j = .zero := Buffer.ext fun k hk => by
          unfold mbrEntry
          rw [Buffer.byte_slice hk, Buffer.byte_zero, Buffer.byte_zero]
        simp [hentry, parseEntry, word32, MbrPartition.unused]
      simpa [hsig] using hzero

/-- A write leaves the bytes in front of the table, if there was a signature. -/
theorem byte_withEntry {i k : ℕ} (hsig : hasSignature sector = true)
    (hk : k < mbrPartitionTableOffset) : (withEntry sector i entry).byte k = sector.byte k := by
  have hlt : k < mbrSignatureOffset := hk.trans (by decide)
  have h512 : k < 512 := hk.trans (by decide)
  unfold withEntry
  dsimp only
  rw [Buffer.byte_set_of_ne (by omega), Buffer.byte_set_of_ne (by omega), if_pos hsig,
    Buffer.byte_paste h512, if_neg (by omega)]

/-- The loop counts the used entries and stores all of them. -/
theorem readEntries_eq (sector : Sector) (slots : List (Fin 4)) (used : ℕ)
    (out : Fin 4 → MbrPartition) : readEntries sector slots used out =
      (used + slots.countP (fun i : Fin 4 => (parseEntry (mbrEntry sector i)).type ≠ 0#8),
        fun i => if i ∈ slots then parseEntry (mbrEntry sector i) else out i) := by
  induction slots generalizing used out with
  | nil => simp [readEntries]
  | cons i slots ih =>
    unfold readEntries
    dsimp only
    rw [ih]
    refine Prod.ext ?_ (funext fun j => ?_)
    · rw [List.countP_cons]
      by_cases htype : (parseEntry (mbrEntry sector i)).type = 0#8
      · simp [htype]
      · simp [htype]
        omega
    · by_cases hj : j ∈ slots
      · simp [hj]
      · by_cases hji : j = i
        · simp [hji]
        · simp [hj, hji]

/-- On a disk without failures `mbr_read_partitions` returns the table. -/
theorem mbrReadPartitions_disk (d : Disk) :
    mbrReadPartitions disk d = ((usedSlots (tableOf (d 0#32)), tableOf (d 0#32)), d) := by
  have hread : disk.readSector 0#32 d = ((true, d 0#32), d) := rfl
  have hunused : usedSlots (fun _ => .unused) = 0 := rfl
  unfold mbrReadPartitions
  rw [hread]
  dsimp only
  by_cases hsig : hasSignature (d 0#32)
  · have htable : tableOf (d 0#32) = fun i : Fin 4 => parseEntry (mbrEntry (d 0#32) i) :=
      funext fun _ => if_pos hsig
    rw [if_neg (by simp), if_neg (by simp [hsig]), readEntries_eq, htable]
    simp [usedSlots]
  · have htable : tableOf (d 0#32) = fun _ => .unused := funext fun i => if_neg hsig
    rw [if_neg (by simp), if_pos hsig, htable, hunused]

/-- A call with an invalid index does nothing. -/
theorem MbrWrite.run_invalid {σ : Type} {a : Ata σ} {s : σ} (h : w.slot = none) :
    w.run a s = (false, s) := by
  have hrange : ¬ (0 ≤ w.index ∧ w.index ≤ 3) := by
    intro hvalid
    simp [MbrWrite.slot, hvalid] at h
  exact if_pos (by omega)

/-- A call with a valid index writes sector 0. -/
theorem MbrWrite.run_disk (h : w.slot = some i) :
    w.run disk d = (true, Function.update d 0#32 (withEntry (d 0#32) i
      (entryBytes w.bootable w.type w.lbaStart w.sectorCount))) := by
  have hread : disk.readSector 0#32 d = ((true, d 0#32), d) := rfl
  unfold MbrWrite.slot at h
  split_ifs at h with hrange
  obtain rfl := Option.some.inj h
  unfold MbrWrite.run mbrWritePartition
  rw [if_neg (by omega), hread]
  rfl

/-- What one call does to the disk: nothing, or it puts its partition in its slot. -/
theorem MbrWrite.run_cases (w : MbrWrite) (d : Disk) :
    w.slot = none ∧ (w.run disk d).2 = d ∨
      ∃ i, w.slot = some i ∧
        tableOf ((w.run disk d).2 0#32) =
          Function.update (tableOf (d 0#32)) i w.partition ∧
        (hasSignature (d 0#32) = true → hasSignature ((w.run disk d).2 0#32) = true ∧
          ∀ k < mbrPartitionTableOffset, ((w.run disk d).2 0#32).byte k = (d 0#32).byte k) := by
  cases hslot : w.slot with
  | none => exact .inl ⟨rfl, congrArg Prod.snd (run_invalid hslot)⟩
  | some i =>
    rw [run_disk hslot]
    dsimp only
    rw [Function.update_self, tableOf_withEntry, parseEntry_entryBytes]
    exact .inr ⟨i, rfl, rfl, fun hsig =>
      ⟨hasSignature_withEntry _ _ _, fun k hk => byte_withEntry hsig hk⟩⟩

/-- The table over a sequence of calls. -/
theorem tableOf_writeAll (ws : List MbrWrite) (d : Disk) (i : Fin 4) :
    tableOf (writeAll disk ws d 0#32) i =
      (lastWrite ws i).elim (tableOf (d 0#32) i) MbrWrite.partition := by
  induction ws generalizing d with
  | nil => rfl
  | cons w ws ih =>
    have hrest : tableOf (writeAll disk (w :: ws) d 0#32) i =
        (lastWrite ws i).elim (tableOf ((w.run disk d).2 0#32) i) MbrWrite.partition :=
      ih (w.run disk d).2
    have hlast : lastWrite (w :: ws) i =
        (lastWrite ws i).or (if w.slot = some i then some w else none) := by
      unfold lastWrite
      rw [List.reverse_cons, List.find?_append]
      by_cases hslot : w.slot = some i
      · simp [hslot]
      · simp [hslot]
    rw [hrest, hlast]
    cases lastWrite ws i with
    | some w' => rfl
    | none =>
      rcases w.run_cases d with ⟨hslot, hsame⟩ | ⟨j, hslot, htable, -⟩
      · rw [hsame]
        simp [hslot]
      · rw [htable]
        by_cases hij : i = j
        · simp [hslot, hij]
        · simp [hslot, hij, Ne.symm hij]

/-- The boot code over a sequence of calls. -/
theorem byte_writeAll (ws : List MbrWrite) (hsig : hasSignature (d 0#32) = true) {k : ℕ}
    (hk : k < mbrPartitionTableOffset) :
    (writeAll disk ws d 0#32).byte k = (d 0#32).byte k := by
  induction ws generalizing d with
  | nil => rfl
  | cons w ws ih =>
    rcases w.run_cases d with ⟨-, hsame⟩ | ⟨i, -, -, hframe⟩
    · have hskip : writeAll disk (w :: ws) d = writeAll disk ws d :=
        congrArg (writeAll disk ws) hsame
      rw [hskip]
      exact ih hsig
    · obtain ⟨hsig', hbytes⟩ := hframe hsig
      exact (ih hsig').trans (hbytes k hk)

/-- The partition table is an array. After any sequence of calls each slot has the partition of the
last call with a valid index for it, or the one it had at first if there was a table, and is
unused otherwise. The result is the number of slots with a type. A call with an invalid index
changes nothing, and no call changes the boot code of a sector with a signature. -/
theorem mbr_array (d : Disk) (ws : List MbrWrite) :
    ∃ table : Fin 4 → MbrPartition,
      mbrReadPartitions disk (writeAll disk ws d) =
        ((usedSlots table, table), writeAll disk ws d) ∧
      (∀ i, table i = (lastWrite ws i).elim
        (if hasSignature (d 0#32) then parseEntry (mbrEntry (d 0#32) i) else .unused)
        MbrWrite.partition) ∧
      (∀ w : MbrWrite, w.index < 0 ∨ 3 < w.index →
        w.run disk (writeAll disk ws d) = (false, writeAll disk ws d)) ∧
      (hasSignature (d 0#32) = true → ∀ k < mbrPartitionTableOffset,
        (writeAll disk ws d 0#32).byte k = (d 0#32).byte k) := by
  refine ⟨_, mbrReadPartitions_disk _, tableOf_writeAll ws d, fun w hw => ?_,
    fun hsig k hk => byte_writeAll ws hsig hk⟩
  exact MbrWrite.run_invalid (dif_neg (by omega))

end

end AlderKernel.Fs
