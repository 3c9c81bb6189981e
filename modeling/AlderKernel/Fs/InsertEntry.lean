import AlderKernel.Fs.Lookup

/-!
# Writing an entry into a directory

The new entry goes to the first slot that is deleted or ends the directory. In a deleted slot it
is inserted between the others. Over an end marker it is inserted behind the others, but the marker
is gone then, and what stands behind it counts as entries again up to the next marker.
-/

namespace AlderKernel.Fs

open Machine SlotTable

/-- `write_entry_in_root` or `write_entry_in_dir_cluster`. -/
def Dir.write {σ : Type} (a : Ata σ) (dir : Dir) (entry : DirEntry) (s : Fat16 σ) :
    Bool × Fat16 σ :=
  match dir with
  | .root => writeEntryInRoot a entry s
  | .cluster c => writeEntryInDirCluster a c entry s

/-- A list with one more element at one position. -/
def InsertsOne {α : Type} (before after : List α) (e : α) : Prop :=
  ∃ pre post, before = pre ++ post ∧ after = pre ++ e :: post

/-- Slot `i` is the first one that is free or deleted. -/
structure Dir.FirstUsable (v : Volume) (d : Disk) (dir : Dir) (i : ℕ) : Prop where
  lt : i < 16 * dir.sectors v
  usable : slotUsable (slotAt d (dir.base v) i) = true
  first : ∀ j < i, slotUsable (slotAt d (dir.base v) j) = false

/-- The entries behind slot `i`, up to the next end marker or the end of the directory. -/
def Dir.entriesBehind (v : Volume) (d : Disk) (dir : Dir) (i : ℕ) : List DirEntry :=
  shownFrom d (dir.base v) (i + 1) (16 * dir.sectors v - (i + 1))

/-- The first slot that is free or deleted is an end marker with entries behind it. -/
def Dir.Exposes (v : Volume) (d : Disk) (dir : Dir) : Prop :=
  ∃ i, dir.FirstUsable v d i ∧ slotEnded (slotAt d (dir.base v) i) = true ∧
    dir.entriesBehind v d i ≠ []

section

variable {d : Disk} {base : U32} {i m n : ℕ} {entry : DirEntry} {v : Volume} {dir : Dir}
  {s : Fat16 Disk}

/-- The entries that are shown from a slot on, by the first slot. -/
theorem shownFrom_succ : shownFrom d base i (n + 1) =
    if slotEnded (slotAt d base i) then []
    else if slotSkipped (slotAt d base i) then shownFrom d base (i + 1) n
    else slotAt d base i :: shownFrom d base (i + 1) n := by
  unfold shownFrom
  rw [liveFrom_succ]
  cases slotEnded (slotAt d base i) with
  | true => simp
  | false => cases hskip : slotSkipped (slotAt d base i) <;> simp [hskip]

/-- In front of slot `m` no slot ends the directory. -/
theorem shownFrom_add (h : ∀ j, i ≤ j → j < i + m → slotUsable (slotAt d base j) = false) :
    shownFrom d base i (m + n) = shownFrom d base i m ++ shownFrom d base (i + m) n := by
  have hends : reachesEnd slotEnded (slotAt d base) i m = false := by
    unfold reachesEnd
    rw [List.any_eq_false]
    intro e he hend
    obtain ⟨j, hj, rfl⟩ := List.mem_map.mp he
    obtain ⟨hj, hj'⟩ := List.mem_range'_1.mp hj
    exact Bool.false_ne_true ((h j hj hj').symm.trans (slotUsable_of_ended hend))
  unfold shownFrom
  rw [liveFrom_add, hends, if_neg Bool.false_ne_true, List.filter_append]

/-- The entries that are shown depend on the slots that are looked at. -/
theorem shownFrom_congr {d' : Disk}
    (h : ∀ j, i ≤ j → j < i + n → slotAt d' base j = slotAt d base j) :
    shownFrom d' base i n = shownFrom d base i n := by
  unfold shownFrom
  rw [liveFrom_congr h]

/-- A directory has fewer than `2 ^ 32` slots. -/
theorem Dir.slots_lt (hv : MountedVolume v) (dir : Dir) : 16 * dir.sectors v < 2 ^ 32 := by
  have hroot := hv.rootDirSectors_bound.1
  have hcluster := hv.sectorsPerCluster_lt
  cases dir with
  | root =>
    change 16 * v.rootDirSectors.toNat < 2 ^ 32
    omega
  | cluster c =>
    change 16 * v.sectorsPerCluster.toNat < 2 ^ 32
    omega

/-- On a disk without failures the entries that are gone over are those in front of the end. -/
theorem entriesFrom_disk : entriesFrom disk base n (BitVec.ofNat 32 m) d =
    (shownFrom d base (16 * m) (16 * n), d) := by
  induction n generalizing m with
  | zero => rfl
  | succ n ih =>
    have hslots : (List.range' (16 * m) 16).map (slotAt d base) =
        (List.range' 0 16).map (sectorSlot (d (base + BitVec.ofNat 32 m))) :=
      slots_congr fun j hj => by rw [slotAt_sector hj, Nat.zero_add, sectorSlot]
    have hends : sectorEnds (d (base + BitVec.ofNat 32 m)) =
        reachesEnd slotEnded (slotAt d base) (16 * m) 16 := by
      unfold sectorEnds reachesEnd
      rw [hslots]
    have hentries : sectorEntries (d (base + BitVec.ofNat 32 m)) =
        shownFrom d base (16 * m) 16 := by
      unfold sectorEntries shownFrom liveFrom
      rw [hslots]
    have hread : disk.readSector (base + BitVec.ofNat 32 m) d =
        ((true, d (base + BitVec.ofNat 32 m)), d) := rfl
    have hnext : BitVec.ofNat 32 m + 1#32 = BitVec.ofNat 32 (m + 1) := (BitVec.ofNat_add ..).symm
    have hrest : shownFrom d base (16 * m) (16 * (n + 1)) = shownFrom d base (16 * m) 16 ++
        if reachesEnd slotEnded (slotAt d base) (16 * m) 16 then []
        else shownFrom d base (16 * (m + 1)) (16 * n) := by
      unfold shownFrom
      rw [show 16 * (n + 1) = 16 + 16 * n by omega, liveFrom_add, List.filter_append]
      cases reachesEnd slotEnded (slotAt d base) (16 * m) 16 <;> rfl
    unfold entriesFrom
    rw [hread, hnext]
    dsimp only
    rw [ih, hends, hentries, hrest]
    cases reachesEnd slotEnded (slotAt d base) (16 * m) 16 <;> simp

/-- On a disk without failures the entries of the directory are enumerated. -/
theorem Dir.enumerated_disk (hm : s.mounted = true) :
    dir.enumerated disk s = dir.entries s.vol s.dev := by
  have hall : entriesFrom disk (dir.base s.vol) (dir.sectors s.vol) (BitVec.ofNat 32 0) s.dev = _ :=
    entriesFrom_disk
  unfold Dir.enumerated Dir.entries
  rw [if_pos hm]
  exact congrArg Prod.fst hall

/-- What writing an entry does: nothing without a usable slot, and else the entry takes the place of
the first one. -/
theorem Dir.write_cases (dir : Dir) (entry : DirEntry) (s : Fat16 Disk) :
    (dir.write disk entry s = (false, s) ∧ ∀ i, ¬ dir.FirstUsable s.vol s.dev i) ∨
    ∃ i, dir.FirstUsable s.vol s.dev i ∧ dir.write disk entry s =
      (true, { s with dev := putSlot s.dev (dir.base s.vol) i entry }) := by
  have hwrite : dir.write disk entry s =
      ((writeEntryInSectors disk (dir.base s.vol) entry (dir.sectors s.vol) 0#32 s.dev).1,
        { s with dev :=
          (writeEntryInSectors disk (dir.base s.vol) entry
            (dir.sectors s.vol) 0#32 s.dev).2 }) := by
    cases dir <;> rfl
  rcases writeEntryInSectors_cases s.dev (dir.base s.vol) entry (dir.sectors s.vol) 0
    with ⟨hfail, hused⟩ | ⟨i, -, hi, hfree, hfirst, hput⟩
  · left
    rw [hwrite, hfail]
    refine ⟨rfl, fun i hi => ?_⟩
    have hno := hused i (by omega) (by have := hi.lt; omega)
    exact Bool.false_ne_true (hno.symm.trans hi.usable)
  · right
    rw [hwrite, hput]
    exact ⟨i, ⟨by omega, hfree, fun j hj => hfirst j (by omega) hj⟩, rfl⟩

/-- The entries of a directory before and after an entry was put in its first usable slot. -/
theorem Dir.entries_put (hv : MountedVolume v) (hi : dir.FirstUsable v d i)
    (hended : slotEnded entry = false) (hskip : slotSkipped entry = false) :
    dir.entries v d = shownFrom d (dir.base v) 0 i ++
        (if slotEnded (slotAt d (dir.base v) i) then [] else dir.entriesBehind v d i) ∧
      dir.entries v (putSlot d (dir.base v) i entry) =
        shownFrom d (dir.base v) 0 i ++ entry :: dir.entriesBehind v d i := by
  have hlt := hi.lt
  have hslots := dir.slots_lt hv
  obtain ⟨n, hn⟩ := Nat.exists_eq_add_of_lt hlt
  have hbehind : 16 * dir.sectors v - (i + 1) = n := by omega
  have hput (j : ℕ) (hj : j < 2 ^ 32) : slotAt (putSlot d (dir.base v) i entry) (dir.base v) j =
      if j = i then entry else slotAt d (dir.base v) j := slotAt_putSlot (by omega) hj
  have hfront : ∀ j, 0 ≤ j → j < 0 + i → slotUsable (slotAt d (dir.base v) j) = false :=
    fun j _ hj => hi.first j (by omega)
  have hfront' : ∀ j, 0 ≤ j → j < 0 + i →
      slotUsable (slotAt (putSlot d (dir.base v) i entry) (dir.base v) j) = false := by
    intro j hj hj'
    rw [hput j (by omega), if_neg (by omega)]
    exact hfront j hj hj'
  have hfirst : shownFrom (putSlot d (dir.base v) i entry) (dir.base v) 0 i =
      shownFrom d (dir.base v) 0 i :=
    shownFrom_congr fun j _ hj => by rw [hput j (by omega), if_neg (by omega)]
  have hrest : shownFrom (putSlot d (dir.base v) i entry) (dir.base v) (i + 1) n =
      shownFrom d (dir.base v) (i + 1) n :=
    shownFrom_congr fun j _ hj => by rw [hput j (by omega), if_neg (by omega)]
  unfold Dir.entries Dir.entriesBehind
  rw [hbehind, hn, Nat.add_assoc, shownFrom_add hfront, shownFrom_add hfront', Nat.zero_add, hfirst,
    Nat.add_comm n 1, Nat.add_comm 1 n, shownFrom_succ, shownFrom_succ, hput i (by omega),
    if_pos rfl, hrest, hended, hskip]
  refine ⟨?_, rfl⟩
  cases hend : slotEnded (slotAt d (dir.base v) i) with
  | true => rfl
  | false =>
    -- A usable slot that does not end the directory is deleted, and skipped.
    have hdeleted : slotSkipped (slotAt d (dir.base v) i) = true := by
      have husable := hi.usable
      simp only [slotUsable, slotEnded, slotSkipped, decide_eq_true_eq, decide_eq_false_iff_not]
        at husable hend ⊢
      exact .inl (husable.resolve_left hend)
    rw [hdeleted]
    rfl

/-- Only one slot is the first usable one. -/
theorem Dir.FirstUsable.unique {j : ℕ} (hi : dir.FirstUsable v d i) (hj : dir.FirstUsable v d j) :
    i = j := by
  rcases Nat.lt_trichotomy i j with hlt | heq | hgt
  · exact absurd ((hj.first i hlt).symm.trans hi.usable) (by decide)
  · exact heq
  · exact absurd ((hi.first j hgt).symm.trans hj.usable) (by decide)

/-- An entry was put in the first usable slot. It is inserted between the others, unless it uncovers
what stands behind an end marker. -/
theorem Dir.insertsOne_put (hv : MountedVolume v) (hi : dir.FirstUsable v d i)
    (hended : slotEnded entry = false) (hskip : slotSkipped entry = false) :
    InsertsOne (dir.entries v d) (dir.entries v (putSlot d (dir.base v) i entry)) entry ↔
      ¬ dir.Exposes v d := by
  obtain ⟨hbefore, hafter⟩ := dir.entries_put hv hi hended hskip
  have hexposes : dir.Exposes v d ↔
      slotEnded (slotAt d (dir.base v) i) = true ∧ dir.entriesBehind v d i ≠ [] := by
    constructor
    · rintro ⟨j, hj, hend, hbehind⟩
      obtain rfl := hi.unique hj
      exact ⟨hend, hbehind⟩
    · rintro ⟨hend, hbehind⟩
      exact ⟨i, hi, hend, hbehind⟩
  rw [hbefore, hafter, hexposes]
  cases slotEnded (slotAt d (dir.base v) i) with
  | false => exact iff_of_true ⟨_, _, rfl, rfl⟩ (by simp)
  | true =>
    rw [if_pos rfl, List.append_nil]
    constructor
    · rintro ⟨pre, post, hold, hnew⟩ ⟨-, hbehind⟩
      have hlength := congrArg List.length hnew
      rw [hold] at hlength
      simp only [List.length_append, List.length_cons] at hlength
      exact hbehind (List.eq_nil_of_length_eq_zero (by omega))
    · intro hnone
      have hempty : dir.entriesBehind v d i = [] := by simpa using hnone
      rw [hempty]
      exact ⟨_, [], (List.append_nil _).symm, rfl⟩

/-- Adding a directory entry. On a mounted volume, whatever the sectors of the directory hold: a
call that writes a live entry and returns 1 inserts it at one position of the sequence that listing
goes over, and changes nothing else of it, if and only if the first slot that is free or deleted is
not an end marker with live entries behind it. -/
theorem write_inserts_iff (hv : MountedVolume s.vol) (hm : s.mounted = true)
    (hlive : slotEnded entry = false ∧ slotSkipped entry = false) :
    ((dir.write disk entry s).1 = true →
        InsertsOne (dir.enumerated disk s) (dir.enumerated disk (dir.write disk entry s).2) entry) ↔
      ¬ dir.Exposes s.vol s.dev := by
  rcases dir.write_cases entry s with ⟨hfail, hnone⟩ | ⟨i, hi, hput⟩
  · rw [hfail]
    refine iff_of_true (fun h => Bool.noConfusion h) ?_
    rintro ⟨i, hi, -⟩
    exact hnone i hi
  · have hafter : dir.enumerated disk { s with dev := putSlot s.dev (dir.base s.vol) i entry } =
        dir.entries s.vol (putSlot s.dev (dir.base s.vol) i entry) := Dir.enumerated_disk hm
    rw [hput, Dir.enumerated_disk hm, ← dir.insertsOne_put hv hi hlive.1 hlive.2, hafter]
    exact ⟨fun h => h rfl, fun h _ => h⟩

end

/-- A sector whose first slot ends the directory, with an entry behind it. -/
def staleSector : Sector :=
  (Buffer.zero : Sector).paste 32 (setDirEntry [0x4F#8] [] attrFile 0#32 0#32)

/-- A mounted volume all of whose sectors have a stale entry behind the end marker. -/
def staleMounted : Fat16 Disk := { emptyMounted with dev := fun _ => staleSector }

/-- A new entry. -/
def newEntry : DirEntry := setDirEntry [0x4E#8] [] attrFile 0#32 0#32

/-- A mounted volume all of whose sectors are full of zeros. -/
def zeroMounted : Fat16 Disk := { emptyMounted with dev := fun _ => .zero }

/-- An entry whose name does not mark a deleted slot is live. -/
theorem setDirEntry_live {name : List U8} (hname : name.head? ≠ some 0xE5#8) :
    slotEnded (setDirEntry name [] attrFile 0#32 0#32) = false ∧
      slotSkipped (setDirEntry name [] attrFile 0#32 0#32) = false := by
  constructor
  · simp [slotEnded, setDirEntry_first_ne]
  · simpa [slotSkipped_setDirEntry (show attrFile ≠ 0x0F#8 by decide)] using hname

/-- The new entry is shown. -/
theorem newEntry_live : slotEnded newEntry = false ∧ slotSkipped newEntry = false :=
  setDirEntry_live (by decide)

/-- Writing the new entry over the end marker makes the stale entry behind it visible too. -/
theorem staleMounted_not_inserts :
    (Dir.root.write disk newEntry staleMounted).1 = true ∧
      ¬ InsertsOne (Dir.root.enumerated disk staleMounted)
        (Dir.root.enumerated disk (Dir.root.write disk newEntry staleMounted).2) newEntry := by
  have hm : staleMounted.mounted = true := rfl
  have hv : MountedVolume staleMounted.vol := formattedVolume_mounted 2048#32
  have hslot (i : ℕ) (hi : i < 2) : slotAt staleMounted.dev (Dir.root.base staleMounted.vol) i =
      staleSector.slice (i * 32) 32 := by
    have hsector : slotAt staleMounted.dev (Dir.root.base staleMounted.vol) (16 * 0 + i) =
        staleSector.slice (i * 32) 32 := slotAt_sector (by omega)
    rwa [Nat.mul_zero, Nat.zero_add] at hsector
  have hzero : (slotAt staleMounted.dev (Dir.root.base staleMounted.vol) 0).byte 0 = 0x00#8 := by
    rw [hslot 0 (by omega), Buffer.byte_slice (by omega), staleSector, Buffer.byte_paste (by omega),
      if_neg (by omega), Buffer.byte_zero]
  have hstale : slotAt staleMounted.dev (Dir.root.base staleMounted.vol) 1 =
      setDirEntry [0x4F#8] [] attrFile 0#32 0#32 := by
    rw [hslot 1 (by omega)]
    exact Buffer.slice_paste_self (by omega)
  have hfirst : Dir.root.FirstUsable staleMounted.vol staleMounted.dev 0 := by
    refine ⟨by decide, ?_, fun j hj => absurd hj (Nat.not_lt_zero j)⟩
    simp [slotUsable, hzero]
  have hlive := setDirEntry_live (show [0x4F#8].head? ≠ some 0xE5#8 by decide)
  have hexposes : Dir.root.Exposes staleMounted.vol staleMounted.dev := by
    refine ⟨0, hfirst, by simp [slotEnded, hzero], ?_⟩
    unfold Dir.entriesBehind
    rw [show 16 * Dir.root.sectors staleMounted.vol - (0 + 1) = 510 + 1 from rfl, shownFrom_succ,
      hstale, hlive.1, hlive.2]
    simp
  rcases Dir.root.write_cases newEntry staleMounted with ⟨-, hnone⟩ | ⟨i, hi, hput⟩
  · exact absurd hfirst (hnone 0)
  · have hafter : Dir.root.enumerated disk { staleMounted with
        dev := putSlot staleMounted.dev (Dir.root.base staleMounted.vol) i newEntry } = _ :=
      Dir.enumerated_disk hm
    refine ⟨congrArg Prod.fst hput, fun h => ?_⟩
    rw [hput, Dir.enumerated_disk hm, hafter] at h
    exact (Dir.root.insertsOne_put hv hi newEntry_live.1 newEntry_live.2).mp h hexposes

/-- In the root directory of a volume full of zeros the new entry becomes the only one. -/
theorem zeroMounted_inserts : (Dir.root.write disk newEntry zeroMounted).1 = true ∧
    InsertsOne (Dir.root.enumerated disk zeroMounted)
      (Dir.root.enumerated disk (Dir.root.write disk newEntry zeroMounted).2) newEntry := by
  have hv : MountedVolume zeroMounted.vol := formattedVolume_mounted 2048#32
  have hended (i : ℕ) :
      slotEnded (slotAt zeroMounted.dev (Dir.root.base zeroMounted.vol) i) = true := by
    simp [slotEnded, slotAt, zeroMounted, Buffer.byte_slice]
  have hwrite : (Dir.root.write disk newEntry zeroMounted).1 = true := by
    rcases Dir.root.write_cases newEntry zeroMounted with ⟨-, hnone⟩ | ⟨i, -, hput⟩
    · refine absurd ⟨by decide, slotUsable_of_ended (hended 0), fun j hj => ?_⟩ (hnone 0)
      exact absurd hj (Nat.not_lt_zero j)
    · rw [hput]
  refine ⟨hwrite, (write_inserts_iff hv rfl newEntry_live).mpr ?_ hwrite⟩
  rintro ⟨i, -, -, hbehind⟩
  apply hbehind
  unfold Dir.entriesBehind
  cases 16 * Dir.root.sectors zeroMounted.vol - (i + 1) with
  | zero => rfl
  | succ n => rw [shownFrom_succ, if_pos (hended _)]

end AlderKernel.Fs
