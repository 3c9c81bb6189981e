import AlderKernel.Fs.InsertEntry
import AlderKernel.Fs.FaultyDisk

/-!
# Failing mounts and formats

`fat16_mount` copies the fields of a boot sector into the volume record before its last check, so
a failing mount can leave a mixed record behind. `fat16_format` writes the boot sector first, so
a format that fails later leaves a volume that can be mounted.
-/

namespace AlderKernel.Fs

open Machine

/-- A record has the fields that `fat16_mount` reads from a boot sector. -/
structure SameFields (v : Volume) (partitionLba : U32) (sector : Sector) : Prop where
  partitionLba : v.partitionLba = partitionLba
  bytesPerSector : v.bytesPerSector = word16 sector 11
  sectorsPerCluster : v.sectorsPerCluster = (sector.byte 13).setWidth 32
  reservedSectors : v.reservedSectors = word16 sector 14
  numFats : v.numFats = (sector.byte 16).setWidth 32
  rootEntries : v.rootEntries = word16 sector 17
  fatSizeSectors : v.fatSizeSectors = word16 sector 22

section

variable {σ : Type} {a : Ata σ} {v : Volume} {p : U32} {sector : Sector}

/-- The fields are those of the sector exactly when reading it again changes nothing. -/
theorem sameFields_iff : SameFields v p sector ↔ volumeFields v p sector = v := by
  constructor
  · intro h
    unfold volumeFields
    rw [← h.partitionLba, ← h.bytesPerSector, ← h.sectorsPerCluster, ← h.reservedSectors,
      ← h.numFats, ← h.rootEntries, ← h.fatSizeSectors]
  · intro h
    constructor
    all_goals rw [← h]
    all_goals rfl

/-- The three ways in which a mount ends: without a boot sector, with one whose last check fails,
and with success. -/
theorem fat16Mount_cases (a : Ata σ) (p : U32) (s : Fat16 σ) :
    let r := a.readSector p s.dev
    ((r.1.1 = false ∨ r.1.2.byte 510 ≠ 0x55#8 ∨ r.1.2.byte 511 ≠ 0xAA#8) ∧
      fat16Mount a p s = (false, { s with dev := r.2 })) ∨
    (¬ (r.1.1 = false ∨ r.1.2.byte 510 ≠ 0x55#8 ∨ r.1.2.byte 511 ≠ 0xAA#8) ∧
      (word16 r.1.2 11 = 0#32 ∨ r.1.2.byte 13 = 0#8) ∧
      fat16Mount a p s = (false, { s with vol := volumeFields s.vol p r.1.2, dev := r.2 })) ∨
    ((word16 r.1.2 11 ≠ 0#32 ∧ r.1.2.byte 13 ≠ 0#8) ∧ (fat16Mount a p s).1 = true) := by
  intro r
  have hbyte : (r.1.2.byte 13).setWidth 32 = 0#32 ↔ r.1.2.byte 13 = 0#8 := by
    constructor
    · intro h
      bv_omega
    · intro h
      rw [h]
      rfl
  have hmount : fat16Mount a p s = if ¬ r.1.1 then (false, { s with dev := r.2 }) else
      if r.1.2.byte 510 ≠ 0x55#8 ∨ r.1.2.byte 511 ≠ 0xAA#8 then (false, { s with dev := r.2 }) else
      if word16 r.1.2 11 = 0#32 ∨ (r.1.2.byte 13).setWidth 32 = 0#32 then
        (false, { s with vol := volumeFields s.vol p r.1.2, dev := r.2 })
      else (true, { s with
        vol := volumeLayout (volumeFields s.vol p r.1.2), mounted := true, dev := r.2 }) := rfl
  rw [hmount]
  by_cases hread : r.1.1 = false
  · exact .inl ⟨.inl hread, by simp [hread]⟩
  by_cases hmagic : r.1.2.byte 510 ≠ 0x55#8 ∨ r.1.2.byte 511 ≠ 0xAA#8
  · refine .inl ⟨.inr hmagic, ?_⟩
    rw [if_neg (by simpa using hread), if_pos hmagic]
  by_cases hzero : word16 r.1.2 11 = 0#32 ∨ r.1.2.byte 13 = 0#8
  · refine .inr (.inl ⟨not_or.mpr ⟨hread, hmagic⟩, hzero, ?_⟩)
    rw [if_neg (by simpa using hread), if_neg hmagic, if_pos (hzero.imp_right hbyte.mpr)]
  · refine .inr (.inr ⟨not_or.mp hzero, ?_⟩)
    rw [if_neg (by simpa using hread), if_neg hmagic, if_neg (mt (Or.imp_right hbyte.mp) hzero)]

/-- A failed mount leaves the module as it was: `mounted` always, and the volume record if and only
if the sector cannot be read, has no signature, passes the last check, or has just the fields that
the record has already. -/
theorem mount_unchanged_iff (a : Ata σ) (p : U32) (s : Fat16 σ) :
    let r := a.readSector p s.dev
    ((fat16Mount a p s).1 = false → (fat16Mount a p s).2.mounted = s.mounted) ∧
    (((fat16Mount a p s).1 = false →
        (fat16Mount a p s).2.vol = s.vol ∧ (fat16Mount a p s).2.mounted = s.mounted) ↔
      r.1.1 = false ∨ r.1.2.byte 510 ≠ 0x55#8 ∨ r.1.2.byte 511 ≠ 0xAA#8 ∨
      (word16 r.1.2 11 ≠ 0#32 ∧ r.1.2.byte 13 ≠ 0#8) ∨ SameFields s.vol p r.1.2) := by
  intro r
  rw [sameFields_iff]
  rcases fat16Mount_cases a p s with ⟨hearly, hmount⟩ | ⟨hboot, hzero, hmount⟩ | ⟨hfields, hmount⟩
  · rw [hmount]
    refine ⟨fun _ => rfl, iff_of_true (fun _ => ⟨rfl, rfl⟩) ?_⟩
    rcases hearly with hread | hmagic | hmagic
    · exact .inl hread
    · exact .inr (.inl hmagic)
    · exact .inr (.inr (.inl hmagic))
  · rw [hmount]
    refine ⟨fun _ => rfl, fun h => ?_, fun h _ => ⟨?_, rfl⟩⟩
    · exact .inr (.inr (.inr (.inr (h rfl).1)))
    · rcases h with hread | hmagic | hmagic | hfields | hsame
      · exact absurd (.inl hread) hboot
      · exact absurd (.inr (.inl hmagic)) hboot
      · exact absurd (.inr (.inr hmagic)) hboot
      · exact absurd hzero (not_or.mpr hfields)
      · exact hsame
  · rw [hmount]
    refine ⟨fun h => Bool.noConfusion h, iff_of_true (fun h => Bool.noConfusion h) ?_⟩
    exact .inr (.inr (.inr (.inl hfields)))

end

/-- A sector with the signature of a boot sector and zeros. -/
def blankBoot : Sector := ((Buffer.zero : Sector).set 510 0x55#8).set 511 0xAA#8

/-- A mounted volume on a disk with such a sector at address 9. -/
def mixedStart : Fat16 Disk := { emptyMounted with dev := fun _ => blankBoot }

/-- Mounting the other sector fails, and the mounted volume has no bytes per sector any more: the
next access to its FAT divides by zero. -/
theorem blankBoot_not_unchanged : (fat16Mount disk 9#32 mixedStart).1 = false ∧
    (fat16Mount disk 9#32 mixedStart).2.mounted = true ∧
    (fat16Mount disk 9#32 mixedStart).2.vol ≠ mixedStart.vol ∧
    mixedStart.overrun = false ∧
    (fatReadEntry disk 2#32 (fat16Mount disk 9#32 mixedStart).2).2.overrun = true := by
  have hbyte (i : ℕ) (hi : i < 510) : blankBoot.byte i = 0#8 := by
    rw [blankBoot, Buffer.byte_set_of_ne (by omega), Buffer.byte_set_of_ne (by omega),
      Buffer.byte_zero]
  have hmagic : blankBoot.byte 510 = 0x55#8 ∧ blankBoot.byte 511 = 0xAA#8 := by
    constructor
    · rw [blankBoot, Buffer.byte_set_of_ne (by decide), Buffer.byte_set (by decide), if_pos rfl]
    · rw [blankBoot, Buffer.byte_set (by decide), if_pos rfl]
  have hzero : word16 blankBoot 11 = 0#32 := by
    unfold word16
    rw [hbyte 11 (by decide), hbyte 12 (by decide)]
    rfl
  have hread : disk.readSector 9#32 mixedStart.dev = ((true, blankBoot), mixedStart.dev) := rfl
  rcases fat16Mount_cases disk 9#32 mixedStart with ⟨hearly, -⟩ | ⟨-, -, hmount⟩ | ⟨hfields, -⟩
  · rw [hread] at hearly
    simp [hmagic] at hearly
  · rw [hmount, hread]
    have hbytes : (volumeFields mixedStart.vol 9#32 blankBoot).bytesPerSector = 0#32 := hzero
    refine ⟨rfl, rfl, fun heq => ?_, rfl, ?_⟩
    · have hsame := congrArg Volume.bytesPerSector heq
      rw [hbytes] at hsame
      exact absurd hsame (by decide)
    · simp [fatReadEntry, entryOverruns, hbytes]
  · rw [hread] at hfields
    exact absurd hzero hfields.1

/-! ### Formatting with failing writes -/

/-- Sector `j` of what `fat16_format` writes, from the boot sector on: two FAT copies, and the root
directory. -/
def formatSector (p count : U32) (j : ℕ) : Sector :=
  if j = 0 then bootSector p count else if j = 1 ∨ j = 257 then firstFatSector else .zero

/-- Write the sectors `i`, `i + 1` and so on behind `base`, and give up at the first failure. -/
def storeAll {σ : Type} (a : Ata σ) (base : U32) (f : ℕ → Sector) : ℕ → ℕ → σ → Bool × σ
  | 0, _, d => (true, d)
  | turns + 1, i, d =>
    let r := a.writeSector (base + BitVec.ofNat 32 i) (f i) d
    if r.1 then storeAll a base f turns (i + 1) r.2 else (false, r.2)

/-- Write number `k` is the first one of `fat16_format` that fails. -/
structure FirstFailure (f : Faults) (p : U32) (k : ℕ) : Prop where
  lt : k < 545
  fails : f.write k (p + BitVec.ofNat 32 k) = true
  first : ∀ j < k, f.write j (p + BitVec.ofNat 32 j) = false

section

variable {σ : Type} {a : Ata σ} {p base : U32} {g : ℕ → Sector} {m n i : ℕ}

/-- The first of several writes decides whether there are others. -/
theorem storeAll_succ (d : σ) : storeAll a base g (n + 1) i d =
    if (a.writeSector (base + BitVec.ofNat 32 i) (g i) d).1 then
      storeAll a base g n (i + 1) (a.writeSector (base + BitVec.ofNat 32 i) (g i) d).2
    else (false, (a.writeSector (base + BitVec.ofNat 32 i) (g i) d).2) := rfl

/-- Several writes in two parts. -/
theorem storeAll_add (d : σ) : storeAll a base g (m + n) i d =
    if (storeAll a base g m i d).1 then storeAll a base g n (i + m) (storeAll a base g m i d).2
    else (false, (storeAll a base g m i d).2) := by
  induction m generalizing i d with
  | zero => simp [storeAll]
  | succ m ih =>
    rw [Nat.succ_add, storeAll_succ, storeAll_succ]
    cases (a.writeSector (base + BitVec.ofNat 32 i) (g i) d).1 with
    | false => simp
    | true => simp [ih, Nat.add_assoc, Nat.add_comm 1 m]

/-- A loop that writes one sector again and again. -/
theorem writeSectors_eq {b : ℕ} {sector : Sector} (d : σ)
    (hg : ∀ j < n, g (b + i + j) = sector) :
    writeSectors a (base + BitVec.ofNat 32 b) sector n (BitVec.ofNat 32 i) d =
      storeAll a base g n (b + i) d := by
  induction n generalizing i d with
  | zero => rfl
  | succ n ih =>
    have hfirst := hg 0 (Nat.succ_pos n)
    have hrest : ∀ j < n, g (b + (i + 1) + j) = sector := by
      intro j hj
      have hj' := hg (j + 1) (by omega)
      rwa [show b + i + (j + 1) = b + (i + 1) + j by omega] at hj'
    have hnext : BitVec.ofNat 32 i + 1#32 = BitVec.ofNat 32 (i + 1) := (BitVec.ofNat_add ..).symm
    have haddr : base + BitVec.ofNat 32 b + BitVec.ofNat 32 i = base + BitVec.ofNat 32 (b + i) := by
      rw [BitVec.add_assoc, BitVec.ofNat_add]
    rw [Nat.add_zero] at hfirst
    rw [storeAll_succ, hfirst, Nat.add_assoc, ← ih _ hrest, ← hnext, ← haddr]
    rfl

/-- One copy of the FAT, and then the others. -/
theorem formatFats_step {fatStart copy : U32} (d : σ) : formatFats a fatStart (n + 1) copy d =
    let first := a.writeSector (fatStart + copy * fatSizeSectors) firstFatSector d
    if ¬ first.1 then (false, first.2) else
    let rest :=
      writeSectors a (fatStart + copy * fatSizeSectors) .zero (fatSizeSectors.toNat - 1) 1#32
      first.2
    if ¬ rest.1 then (false, rest.2) else formatFats a fatStart n (copy + 1#32) rest.2 := rfl

/-- The loop over the FAT copies. -/
theorem formatFats_eq {copy : ℕ} (d : σ) (hg : ∀ c < n, ∀ j < 256,
      g (1 + (copy + c) * 256 + j) = if j = 0 then firstFatSector else .zero) :
    formatFats a (base + 1#32) n (BitVec.ofNat 32 copy) d =
      storeAll a base g (n * 256) (1 + copy * 256) d := by
  induction n generalizing copy d with
  | zero => rw [Nat.zero_mul]; rfl
  | succ n ih =>
    have hbase : base + 1#32 + BitVec.ofNat 32 copy * fatSizeSectors =
        base + BitVec.ofNat 32 (1 + copy * 256) := by
      rw [BitVec.add_assoc, BitVec.ofNat_add, BitVec.ofNat_mul]
      rfl
    have hturn : writeSectors a (base + BitVec.ofNat 32 (1 + copy * 256)) .zero 255
        (BitVec.ofNat 32 1) = storeAll a base g 255 (1 + copy * 256 + 1) := by
      funext d
      apply writeSectors_eq
      intro j hj
      have hj' := hg 0 (Nat.succ_pos n) (1 + j) (by omega)
      rw [Nat.add_zero, if_neg (by omega)] at hj'
      rwa [Nat.add_assoc]
    have hfirst : g (1 + copy * 256) = firstFatSector := by
      simpa using hg 0 (Nat.succ_pos n) 0 (by decide)
    have hrest : ∀ c < n, ∀ j < 256,
        g (1 + (copy + 1 + c) * 256 + j) = if j = 0 then firstFatSector else .zero := by
      intro c hc j hj
      rw [Nat.add_assoc copy, Nat.add_comm 1 c]
      exact hg (c + 1) (by omega) j hj
    have hnext : BitVec.ofNat 32 copy + 1#32 = BitVec.ofNat 32 (copy + 1) :=
      (BitVec.ofNat_add ..).symm
    have hsize : fatSizeSectors.toNat - 1 = 255 := by decide
    have hend : 1 + copy * 256 + 1 + 255 = 1 + (copy + 1) * 256 := by omega
    rw [Nat.succ_mul, show n * 256 + 256 = 255 + n * 256 + 1 by omega, storeAll_succ, storeAll_add,
      hend, hfirst, ← hturn, ← ih _ hrest, formatFats_step, hbase, hsize, hnext]
    dsimp only
    cases (a.writeSector (base + BitVec.ofNat 32 (1 + copy * 256)) firstFatSector d).1 with
    | false => simp
    | true =>
      generalize writeSectors a (base + BitVec.ofNat 32 (1 + copy * 256)) .zero 255 1#32 _ = rest
      obtain ⟨ok, d'⟩ := rest
      cases ok <;> simp

/-- `fat16_format` writes the sectors from the boot sector on one after the other. -/
theorem formatSectors_eq (a : Ata σ) (p count : U32) (d : σ) :
    formatSectors a p count d = storeAll a p (formatSector p count) 545 0 d := by
  have hstart : p + BitVec.ofNat 32 0 = p := BitVec.add_zero p
  have hboot : formatSector p count 0 = bootSector p count := rfl
  have hfats : formatFats a (p + 1#32) 2 0#32 =
      storeAll a p (formatSector p count) (2 * 256) (1 + 0 * 256) := by
    funext d
    refine formatFats_eq d fun c hc j hj => ?_
    unfold formatSector
    rw [if_neg (by omega)]
    by_cases hj0 : j = 0
    · rw [if_pos (by omega), if_pos hj0]
    · rw [if_neg (by omega), if_neg hj0]
  have hroot : writeSectors a (p + BitVec.ofNat 32 513) .zero 32 (BitVec.ofNat 32 0) =
      storeAll a p (formatSector p count) 32 (513 + 0) := by
    funext d
    apply writeSectors_eq
    intro j hj
    unfold formatSector
    rw [if_neg (by omega), if_neg (by omega)]
  have hrootStart : (formattedVolume p).rootStart = p + BitVec.ofNat 32 513 := by
    change p + 1#32 + 512#32 = p + 513#32
    rw [BitVec.add_assoc]
    rfl
  have hfatStart : (formattedVolume p).fatStart = p + 1#32 := rfl
  have hnumFats : numFats.toNat = 2 := rfl
  have hrootSectors : rootDirSectors.toNat = 32 := by decide
  rw [show 545 = 2 * 256 + 32 + 1 from rfl, storeAll_succ, storeAll_add, hstart, hboot, ← hfats,
    ← hroot, ← hrootStart]
  unfold formatSectors
  rw [hfatStart, hnumFats, hrootSectors]
  dsimp only
  cases (a.writeSector p (bootSector p count) d).1 with
  | false => simp
  | true =>
    generalize formatFats a (p + 1#32) 2 0#32 _ = fats
    obtain ⟨ok, d'⟩ := fats
    cases ok <;> simp

/-- On a disk whose writes fail either no write fails, or the sectors in front of the first failing
one are written. -/
theorem storeAll_faulty (f : Faults) (base : U32) (g : ℕ → Sector) (n i t : ℕ) (d : Disk) :
    ((storeAll (faultyDisk f) base g n i (d, t)).1 = true ∧
      ∀ k < n, f.write (t + k) (base + BitVec.ofNat 32 (i + k)) = false) ∨
    ∃ k < n, f.write (t + k) (base + BitVec.ofNat 32 (i + k)) = true ∧
      (∀ j < k, f.write (t + j) (base + BitVec.ofNat 32 (i + j)) = false) ∧
      (storeAll (faultyDisk f) base g n i (d, t)).1 = false ∧
      (storeAll (faultyDisk f) base g n i (d, t)).2.1 = storeSectors base g k i d := by
  induction n generalizing i t d with
  | zero => exact .inl ⟨rfl, fun k hk => absurd hk (Nat.not_lt_zero k)⟩
  | succ n ih =>
    cases hfail : f.write t (base + BitVec.ofNat 32 i) with
    | true =>
      have hwrite : (faultyDisk f).writeSector (base + BitVec.ofNat 32 i) (g i) (d, t) =
          (false, d, t + 1) := by simp [faultyDisk, hfail]
      refine .inr ⟨0, Nat.succ_pos n, hfail, fun j hj => absurd hj (Nat.not_lt_zero j), ?_, ?_⟩
      · rw [storeAll_succ, hwrite]
        rfl
      · rw [storeAll_succ, hwrite]
        rfl
    | false =>
      have hwrite : (faultyDisk f).writeSector (base + BitVec.ofNat 32 i) (g i) (d, t) =
          (true, Function.update d (base + BitVec.ofNat 32 i) (g i), t + 1) := by
        simp [faultyDisk, hfail]
      have hfront {k : ℕ} (hk : ∀ j < k,
          f.write (t + 1 + j) (base + BitVec.ofNat 32 (i + 1 + j)) = false) :
          ∀ j < k + 1, f.write (t + j) (base + BitVec.ofNat 32 (i + j)) = false := by
        intro j hj
        cases j with
        | zero => exact hfail
        | succ j =>
          have hj' := hk j (by omega)
          rwa [show t + 1 + j = t + (j + 1) by omega, show i + 1 + j = i + (j + 1) by omega] at hj'
      rw [storeAll_succ, hwrite, if_pos rfl]
      rcases ih (i + 1) (t + 1) (Function.update d (base + BitVec.ofNat 32 i) (g i))
        with ⟨hok, hnone⟩ | ⟨k, hk, hfails, hfirst, hstop, hdisk⟩
      · exact .inl ⟨hok, hfront hnone⟩
      · refine .inr ⟨k + 1, by omega, ?_, hfront hfirst, hstop, hdisk⟩
        rwa [show t + 1 + k = t + (k + 1) by omega, show i + 1 + k = i + (k + 1) by omega] at hfails

/-- Sectors that are there already are stored without a change. -/
theorem storeSectors_eq_self {d : Disk}
    (h : ∀ j < n, d (base + BitVec.ofNat 32 (i + j)) = g (i + j)) :
    storeSectors base g n i d = d := by
  induction n generalizing i with
  | zero => rfl
  | succ n ih =>
    have hfirst : Function.update d (base + BitVec.ofNat 32 i) (g i) = d := by
      have hzero : d (base + BitVec.ofNat 32 i) = g i := h 0 (Nat.succ_pos n)
      rw [← hzero, Function.update_eq_self]
    unfold storeSectors
    rw [hfirst]
    apply ih
    intro j hj
    rw [Nat.add_assoc, Nat.add_comm 1 j]
    exact h (j + 1) (by omega)

/-- Storing sectors leaves a disk as it was exactly when they were there already. -/
theorem storeSectors_eq_self_iff {d : Disk} (hn : n ≤ 2 ^ 32) :
    storeSectors base g n 0 d = d ↔ ∀ j < n, d (base + BitVec.ofNat 32 j) = g j := by
  constructor
  · intro h j hj
    have hself : storeSectors base g n 0 d (base + BitVec.ofNat 32 j) = g j :=
      storeSectors_self (by omega) (Nat.zero_le j) (by omega)
    rw [← hself, h]
  · intro h
    apply storeSectors_eq_self
    simpa using h

/-- The boot sector is the first one that is stored. -/
theorem storeSectors_boot {count : U32} {d : Disk} (hn : n ≤ 545) (hpos : 0 < n) :
    storeSectors p (formatSector p count) n 0 d p = bootSector p count := by
  have hself : storeSectors p (formatSector p count) n 0 d (p + BitVec.ofNat 32 0) =
      formatSector p count 0 := storeSectors_self (by omega) le_rfl (by omega)
  rwa [BitVec.add_zero] at hself

/-- Only one write is the first one that fails. -/
theorem FirstFailure.unique {f : Faults} {j k : ℕ} (hj : FirstFailure f p j)
    (hk : FirstFailure f p k) : j = k := by
  rcases Nat.lt_trichotomy j k with hlt | heq | hgt
  · exact Bool.noConfusion ((hk.first j hlt).symm.trans hj.fails)
  · exact heq
  · exact Bool.noConfusion ((hj.first k hgt).symm.trans hk.fails)

/-- Formatting with an accepted size succeeds when no write fails, and else stops at the first one
that does. -/
theorem fat16Format_faulty {count : U32} (hsize : Admitted count) (f : Faults) (d : Disk) :
    ((fat16Format (faultyDisk f) p count (d, 0)).1 = true ∧ ∀ k, ¬ FirstFailure f p k) ∨
    ∃ k, FirstFailure f p k ∧ (fat16Format (faultyDisk f) p count (d, 0)).1 = false ∧
      (fat16Format (faultyDisk f) p count (d, 0)).2.1 =
        storeSectors p (formatSector p count) k 0 d := by
  rw [fat16Format_eq, if_pos hsize, formatSectors_eq]
  have hstored := storeAll_faulty f p (formatSector p count) 545 0 0 d
  simp only [Nat.zero_add] at hstored
  rcases hstored with ⟨hok, hnone⟩ | ⟨k, hk, hfails, hfirst, hstop, hdisk⟩
  · exact .inl ⟨hok, fun k hk => Bool.noConfusion ((hnone k hk.lt).symm.trans hk.fails)⟩
  · exact .inr ⟨k, ⟨hk, hfails, hfirst⟩, hstop, hdisk⟩

/-- A failed format leaves no half volume. Whatever writes fail: when `fat16_format` returns 0, the
disk is as it was or cannot be mounted, if and only if the size is refused, or no write fails, or
the sectors that are written in front of the first failing write were there already. -/
theorem format_failure_iff (f : Faults) (p count : U32) (s : Fat16 Disk) :
    let r := fat16Format (faultyDisk f) p count (s.dev, 0)
    (r.1 = false →
        r.2.1 = s.dev ∨ (fat16Mount disk p { s with dev := r.2.1 }).1 = false) ↔
      ¬ Admitted count ∨
      ∀ k, FirstFailure f p k →
        ∀ j < k, s.dev (p + BitVec.ofNat 32 j) = formatSector p count j := by
  intro r
  by_cases hsize : Admitted count
  · rw [or_iff_right (not_not_intro hsize)]
    rcases fat16Format_faulty (p := p) hsize f s.dev with ⟨hok, hnone⟩ | ⟨k, hk, hstop, hdisk⟩
    · exact iff_of_true (fun h => Bool.noConfusion (hok.symm.trans h)) fun k hk =>
        absurd hk (hnone k)
    · have hlt := hk.lt
      have hstored : r.2.1 = s.dev ↔
          ∀ j < k, s.dev (p + BitVec.ofNat 32 j) = formatSector p count j := by
        rw [show r.2.1 = _ from hdisk, storeSectors_eq_self_iff (by omega)]
      rw [hstored]
      constructor
      · intro h j hj i hi
        obtain rfl := hj.unique hk
        rcases h hstop with hsame | hmount
        · exact hsame i hi
        · -- The boot sector is on the disk, so the volume can be mounted.
          have hboot : r.2.1 p = bootSector p count := by
            rw [show r.2.1 = _ from hdisk, storeSectors_boot (by omega) (by omega)]
          rw [fat16Mount_formatted (s := { s with dev := r.2.1 }) hboot] at hmount
          exact Bool.noConfusion hmount
      · exact fun h _ => .inl (h k hk)
  · have hr : r = (false, s.dev, 0) := by
      rw [show r = _ from fat16Format_eq .., if_neg hsize]
    rw [hr]
    exact iff_of_true (fun _ => .inl rfl) (.inl hsize)

end

/-- The second write fails. -/
def secondWriteFails : Faults where
  read _ _ := none
  write n _ := decide (n = 1)

/-- Formatting a volume of full size over zeros, with the second write failing: the call returns 0,
and the disk can be mounted. -/
theorem secondWriteFails_mountable :
    (fat16Format (faultyDisk secondWriteFails) 2048#32 297952#32 (zeroMounted.dev, 0)).1 = false ∧
      (fat16Format (faultyDisk secondWriteFails) 2048#32 297952#32 (zeroMounted.dev, 0)).2.1 ≠
        zeroMounted.dev ∧
      (fat16Mount disk 2048#32 { zeroMounted with dev :=
        (fat16Format (faultyDisk secondWriteFails) 2048#32 297952#32
          (zeroMounted.dev, 0)).2.1 }).1 =
        true := by
  have hsize : Admitted 297952#32 := by simp [Admitted]
  rcases fat16Format_faulty (p := 2048#32) hsize secondWriteFails zeroMounted.dev
    with ⟨-, hnone⟩ | ⟨k, hk, hstop, hdisk⟩
  · refine absurd ⟨by decide, rfl, fun j hj => ?_⟩ (hnone 1)
    obtain rfl := Nat.lt_one_iff.mp hj
    rfl
  · have hpos : 0 < k := by
      apply Nat.pos_of_ne_zero
      rintro rfl
      exact absurd hk.fails (by decide)
    have hlt := hk.lt
    have hboot : storeSectors 2048#32 (formatSector 2048#32 297952#32) k 0 zeroMounted.dev 2048#32 =
        bootSector 2048#32 297952#32 := storeSectors_boot (by omega) hpos
    rw [← hdisk] at hboot
    refine ⟨hstop, fun hsame => ?_, ?_⟩
    · have hmagic := (bootSector_signature 2048#32 297952#32).1
      rw [← hboot, hsame, show zeroMounted.dev 2048#32 = .zero from rfl, Buffer.byte_zero] at hmagic
      exact absurd hmagic (by decide)
    · rw [fat16Mount_formatted (s := { zeroMounted with dev := _ }) hboot]

end AlderKernel.Fs
