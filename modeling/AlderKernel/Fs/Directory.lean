import AlderKernel.Fs.FatTable
import AlderKernel.Order.SlotTable

/-!
# Directories on a disk without failures

A directory is the table of its 32-byte slots, 16 a sector, which ends at the first slot whose
first byte is zero. Writing an entry puts it in the first free slot; listing and lookup see the
slots in front of the end.
-/

namespace AlderKernel.Fs

open Machine SlotTable

/-- Slot `i` of the directory whose first sector has the address `base`. -/
def slotAt (d : Disk) (base : U32) (i : ℕ) : DirEntry :=
  (d (base + BitVec.ofNat 32 (i / 16))).slice (i % 16 * 32) 32

/-- The directory ends at this slot. -/
def slotEnded (e : DirEntry) : Bool := e.byte 0 = 0x00#8

/-- A new entry may go to this slot. -/
def slotUsable (e : DirEntry) : Bool := e.byte 0 = 0x00#8 ∨ e.byte 0 = 0xE5#8

/-- The disk with an entry put in slot `i`. -/
def putSlot (d : Disk) (base : U32) (i : ℕ) (entry : DirEntry) : Disk :=
  Function.update d (base + BitVec.ofNat 32 (i / 16))
    ((d (base + BitVec.ofNat 32 (i / 16))).paste (i % 16 * 32) entry)

section

variable {d : Disk} {base : U32} {entry : DirEntry} {turns s i : ℕ}

/-- A slot that ends the directory can be used. -/
theorem slotUsable_of_ended {e : DirEntry} (h : slotEnded e = true) : slotUsable e = true := by
  unfold slotEnded at h
  unfold slotUsable
  rw [decide_eq_true_eq] at h ⊢
  exact Or.inl h

/-- The slots of sector `s`. -/
theorem slotAt_sector (hi : i < 16) :
    slotAt d base (16 * s + i) = (d (base + BitVec.ofNat 32 s)).slice (i * 32) 32 := by
  unfold slotAt
  rw [show (16 * s + i) / 16 = s by omega, show (16 * s + i) % 16 = i by omega]

/-- The test on a slot of a sector is the one on the slot of the directory. -/
theorem slotFree_eq (hi : i < 16) :
    slotFree (d (base + BitVec.ofNat 32 s)) i = slotUsable (slotAt d base (16 * s + i)) := by
  unfold slotFree slotUsable
  rw [slotAt_sector hi, Buffer.byte_slice (by omega), Nat.add_zero]

/-- Only the slot that was put is another one. -/
theorem slotAt_putSlot {j : ℕ} (hi : i < 2 ^ 32) (hj : j < 2 ^ 32) :
    slotAt (putSlot d base i entry) base j = if j = i then entry else slotAt d base j := by
  unfold slotAt putSlot
  by_cases hsector : j / 16 = i / 16
  · rw [hsector, Function.update_self]
    split_ifs with hji
    · rw [hji, Buffer.slice_paste_self (by omega)]
    · exact Buffer.slice_paste_of_apart (by omega) (by omega)
  · rw [Function.update_of_ne, if_neg (by omega)]
    rw [Ne, BitVec.add_right_inj]
    intro heq
    have heq' := congrArg BitVec.toNat heq
    rw [BitVec.toNat_ofNat, BitVec.toNat_ofNat] at heq'
    omega

/-! ### Writing an entry -/

/-- One turn of the search: the entry goes to the first free slot of the sector, if any. -/
theorem writeEntryInSectors_succ :
    writeEntryInSectors disk base entry (turns + 1) (BitVec.ofNat 32 s) d =
      match freeSlot (d (base + BitVec.ofNat 32 s)) with
      | some i => (true, Function.update d (base + BitVec.ofNat 32 s)
          ((d (base + BitVec.ofNat 32 s)).paste (i * 32) entry))
      | none => writeEntryInSectors disk base entry turns (BitVec.ofNat 32 (s + 1)) d := by
  rw [writeEntryInSectors, BitVec.ofNat_add]
  rfl

/-- The search for a free slot from sector `s` on fails and changes nothing when there is none, and
else puts the entry in the first one. -/
theorem writeEntryInSectors_cases (d : Disk) (base : U32) (entry : DirEntry) (turns s : ℕ) :
    (writeEntryInSectors disk base entry turns (BitVec.ofNat 32 s) d = (false, d) ∧
      ∀ i, 16 * s ≤ i → i < 16 * (s + turns) → slotUsable (slotAt d base i) = false) ∨
    ∃ i, 16 * s ≤ i ∧ i < 16 * (s + turns) ∧ slotUsable (slotAt d base i) = true ∧
      (∀ j, 16 * s ≤ j → j < i → slotUsable (slotAt d base j) = false) ∧
      writeEntryInSectors disk base entry turns (BitVec.ofNat 32 s) d =
        (true, putSlot d base i entry) := by
  induction turns generalizing s with
  | zero => exact Or.inl ⟨rfl, fun i hi hi' => by omega⟩
  | succ turns ih =>
    rw [writeEntryInSectors_succ]
    cases hfree : freeSlot (d (base + BitVec.ofNat 32 s)) with
    | some i =>
      obtain ⟨hi, hmem, hfirst⟩ := List.find?_range_eq_some.mp hfree
      have hlt := List.mem_range.mp hmem
      rw [slotFree_eq hlt] at hi
      refine Or.inr ⟨16 * s + i, by omega, by omega, hi, ?_, ?_⟩
      · intro j hj hj'
        obtain ⟨k, rfl⟩ := Nat.exists_eq_add_of_le hj
        have hk := hfirst k (by omega)
        rw [slotFree_eq (by omega)] at hk
        simpa using hk
      · unfold putSlot
        rw [show (16 * s + i) / 16 = s by omega, show (16 * s + i) % 16 = i by omega]
    | none =>
      have hnone : ∀ i, 16 * s ≤ i → i < 16 * (s + 1) → slotUsable (slotAt d base i) = false := by
        intro i hi hi'
        obtain ⟨k, rfl⟩ := Nat.exists_eq_add_of_le hi
        have hk := List.find?_range_eq_none.mp hfree k (by omega)
        rw [slotFree_eq (by omega)] at hk
        simpa using hk
      have hextend : ∀ n, (∀ i, 16 * (s + 1) ≤ i → i < n → slotUsable (slotAt d base i) = false) →
          ∀ i, 16 * s ≤ i → i < n → slotUsable (slotAt d base i) = false := by
        intro n hn i hi hi'
        rcases Nat.lt_or_ge i (16 * (s + 1)) with hlt | hge
        · exact hnone i hi hlt
        · exact hn i hge hi'
      rcases ih (s + 1) with ⟨hfail, hused⟩ | ⟨i, hi, hi', hfree', hfirst, hput⟩
      · exact Or.inl ⟨hfail, hextend _ (by rwa [show s + (turns + 1) = s + 1 + turns by omega])⟩
      · exact Or.inr ⟨i, by omega, by omega, hfree', hextend i hfirst, hput⟩

/-! ### Listing and lookup -/

/-- The entries that listing and lookup see in the slots from `i` on, `n` at most. -/
def shownFrom (d : Disk) (base : U32) (i n : ℕ) : List DirEntry :=
  (liveFrom slotEnded (slotAt d base) i n).filter fun e => !slotSkipped e

/-- What the listing has gathered once it has seen more entries. -/
def Listing.add (l : Listing) (maxEntries : ℤ) (es : List DirEntry) : Listing where
  count := l.count + es.length
  out := l.out ++ (es.take (maxEntries - l.count).toNat).map fillDirent

/-- Listing no entries changes nothing. -/
theorem Listing.add_nil (l : Listing) (maxEntries : ℤ) : l.add maxEntries [] = l := by
  unfold Listing.add
  rw [List.take_nil, List.map_nil, List.append_nil]
  rfl

/-- Entries are listed one after the other. -/
theorem Listing.add_append (l : Listing) (maxEntries : ℤ) (es es' : List DirEntry) :
    l.add maxEntries (es ++ es') = (l.add maxEntries es).add maxEntries es' := by
  unfold Listing.add
  have hroom : (maxEntries - ((l.count + es.length : ℕ) : ℤ)).toNat =
      (maxEntries - l.count).toNat - es.length := by omega
  rw [hroom, List.length_append, List.take_append, List.map_append, List.append_assoc,
    Nat.add_assoc]

/-- One entry more. -/
theorem Listing.add_singleton (l : Listing) (maxEntries : ℤ) (e : DirEntry) :
    l.add maxEntries [e] =
      ⟨l.count + 1, if (l.count : ℤ) < maxEntries then l.out ++ [fillDirent e] else l.out⟩ := by
  unfold Listing.add
  split_ifs with hlt
  · rw [List.take_of_length_le (by rw [List.length_singleton]; omega)]
    rfl
  · rw [show (maxEntries - l.count).toNat = 0 by omega, List.take_zero, List.map_nil,
      List.append_nil]
    rfl

/-- The first slot of a part of a sector, and the others. -/
theorem slots_succ {sector : Sector} {slot : ℕ → DirEntry} {m : ℕ}
    (hslot : ∀ j < turns + 1, slot (m + j) = sector.slice ((i + j) * 32) 32) :
    slot m = sector.slice (i * 32) 32 ∧
      ∀ j < turns, slot (m + 1 + j) = sector.slice ((i + 1 + j) * 32) 32 := by
  refine ⟨hslot 0 (by omega), fun j hj => ?_⟩
  have hj' := hslot (j + 1) (by omega)
  rwa [show m + (j + 1) = m + 1 + j by omega, show i + (j + 1) = i + 1 + j by omega] at hj'

/-- The slots of one sector. -/
theorem listSlots_eq {sector : Sector} {slot : ℕ → DirEntry} {maxEntries : ℤ} {l : Listing}
    {m : ℕ} (hslot : ∀ j < turns, slot (m + j) = sector.slice ((i + j) * 32) 32) :
    listSlots sector maxEntries turns i l = (reachesEnd slotEnded slot m turns,
      l.add maxEntries ((liveFrom slotEnded slot m turns).filter fun e => !slotSkipped e)) := by
  induction turns generalizing i m l with
  | zero =>
    exact Prod.ext rfl (l.add_nil maxEntries).symm
  | succ turns ih =>
    obtain ⟨hfirst, hrest⟩ := slots_succ hslot
    rw [listSlots, liveFrom_succ, reachesEnd_succ, ← hfirst]
    by_cases hend : (slot m).byte 0 = 0x00#8
    · have hended : slotEnded (slot m) = true := decide_eq_true hend
      rw [if_pos hend, hended, if_pos rfl, List.filter_nil, l.add_nil, Bool.true_or]
    · have hended : slotEnded (slot m) = false := decide_eq_false hend
      rw [if_neg hend, hended, Bool.false_or, if_neg Bool.false_ne_true, List.filter_cons]
      by_cases hskip : slotSkipped (slot m)
      · rw [if_pos hskip, ih hrest, hskip]
        rfl
      · rw [if_neg hskip, ih hrest, ← l.add_singleton, ← Listing.add_append]
        rw [Bool.not_eq_true] at hskip
        rw [hskip]
        rfl

/-- The loop of `list_dir_sectors`. -/
theorem listDirSectors_disk {maxEntries : ℤ} {l : Listing} :
    listDirSectors disk base maxEntries turns (BitVec.ofNat 32 s) l d =
      (l.add maxEntries (shownFrom d base (16 * s) (16 * turns)), d) := by
  induction turns generalizing s l with
  | zero => exact Prod.ext (l.add_nil maxEntries).symm rfl
  | succ turns ih =>
    have hslots : listSlots (d (base + BitVec.ofNat 32 s)) maxEntries 16 0 l =
        (reachesEnd slotEnded (slotAt d base) (16 * s) 16,
          l.add maxEntries (shownFrom d base (16 * s) 16)) :=
      listSlots_eq fun j hj => by rw [slotAt_sector hj, Nat.zero_add]
    have hturn : listDirSectors disk base maxEntries (turns + 1) (BitVec.ofNat 32 s) l d =
        if (listSlots (d (base + BitVec.ofNat 32 s)) maxEntries 16 0 l).1 then
          ((listSlots (d (base + BitVec.ofNat 32 s)) maxEntries 16 0 l).2, d)
        else listDirSectors disk base maxEntries turns (BitVec.ofNat 32 (s + 1))
          (listSlots (d (base + BitVec.ofNat 32 s)) maxEntries 16 0 l).2 d := by
      rw [listDirSectors, BitVec.ofNat_add]
      rfl
    rw [hturn, hslots]
    unfold shownFrom
    rw [show 16 * (turns + 1) = 16 + 16 * turns by omega, liveFrom_add, List.filter_append,
      Listing.add_append]
    cases reachesEnd slotEnded (slotAt d base) (16 * s) 16 with
    | true => rw [if_pos rfl, if_pos rfl, List.filter_nil, Listing.add_nil]
    | false =>
      rw [if_neg Bool.false_ne_true, if_neg Bool.false_ne_true, ih]
      rfl

/-- The lookup in the slots of one sector. -/
theorem findSlots_eq (sector : Sector) (slot : ℕ → DirEntry) (name ext : List U8) (turns i m : ℕ)
    (hslot : ∀ j < turns, slot (m + j) = sector.slice ((i + j) * 32) 32) :
    findSlots sector name ext turns i =
      match ((liveFrom slotEnded slot m turns).filter fun e => !slotSkipped e).find?
          (fun e => namesEqual e name ext) with
      | some e => some (some (fillDirent e))
      | none => if reachesEnd slotEnded slot m turns then some none else none := by
  induction turns generalizing i m with
  | zero => rfl
  | succ turns ih =>
    obtain ⟨hfirst, hrest⟩ := slots_succ hslot
    have ih := ih (i + 1) (m + 1) hrest
    rw [findSlots, liveFrom_succ, reachesEnd_succ, ← hfirst]
    by_cases hend : (slot m).byte 0 = 0x00#8
    · have hended : slotEnded (slot m) = true := decide_eq_true hend
      rw [if_pos hend, hended, if_pos rfl]
      rfl
    · have hended : slotEnded (slot m) = false := decide_eq_false hend
      rw [if_neg hend, hended, Bool.false_or, if_neg Bool.false_ne_true, List.filter_cons, ih]
      by_cases hskip : slotSkipped (slot m)
      · rw [if_pos hskip, hskip]
        rfl
      · rw [if_neg hskip]
        rw [Bool.not_eq_true] at hskip
        rw [hskip, Bool.not_false, if_pos (rfl : true = true), List.find?_cons]
        cases namesEqual (slot m) name ext
        · rfl
        · rfl

/-- `find_in_sectors` finds the first entry with the name. -/
theorem findInSectors_disk {name ext : List U8} :
    findInSectors disk base name ext turns (BitVec.ofNat 32 s) d =
      (((shownFrom d base (16 * s) (16 * turns)).find?
        fun e => namesEqual e name ext).map fillDirent, d) := by
  induction turns generalizing s with
  | zero => rfl
  | succ turns ih =>
    have hslots := findSlots_eq (d (base + BitVec.ofNat 32 s)) (slotAt d base) name ext 16 0
      (16 * s)
      fun j hj => by rw [slotAt_sector hj, Nat.zero_add]
    have hok : (disk.readSector (base + BitVec.ofNat 32 s) d).1.1 = true := rfl
    have hread : (disk.readSector (base + BitVec.ofNat 32 s) d).1.2 =
      d (base + BitVec.ofNat 32 s) := rfl
    rw [findInSectors, if_neg (not_not_intro hok), hread, hslots]
    unfold shownFrom
    rw [show 16 * (turns + 1) = 16 + 16 * turns by omega, liveFrom_add, List.filter_append,
      List.find?_append]
    cases hfind : ((liveFrom slotEnded (slotAt d base) (16 * s) 16).filter
        fun e => !slotSkipped e).find? (fun e => namesEqual e name ext) with
    | some e => rfl
    | none =>
      cases reachesEnd slotEnded (slotAt d base) (16 * s) 16 with
      | true => rfl
      | false =>
        have hnext := ih (s := s + 1)
        rw [BitVec.ofNat_add] at hnext
        exact hnext

variable {maxEntries : ℤ} {name ext : List U8} {st : Fat16 Disk}

/-- What listing the `n` sectors of a directory returns and stores in `out`. -/
def listingOf (d : Disk) (base : U32) (n : ℕ) (maxEntries : ℤ) : ℤ × List Dirent :=
  ((shownFrom d base 0 (16 * n)).length,
    ((shownFrom d base 0 (16 * n)).take maxEntries.toNat).map fillDirent)

/-- What looking a name up in the `n` sectors of a directory finds. -/
def foundIn (d : Disk) (base : U32) (n : ℕ) (name ext : List U8) : Option Dirent :=
  ((shownFrom d base 0 (16 * n)).find? fun e => namesEqual e name ext).map fillDirent

/-- The loop of `list_dir_sectors` over a whole directory. -/
theorem listDirSectors_all (base : U32) (n : ℕ) :
    listDirSectors disk base maxEntries n 0#32 ⟨0, []⟩ d =
      (⟨(shownFrom d base 0 (16 * n)).length,
        ((shownFrom d base 0 (16 * n)).take maxEntries.toNat).map fillDirent⟩, d) := by
  have hloop : listDirSectors disk base maxEntries n (BitVec.ofNat 32 0) ⟨0, []⟩ d = _ :=
    listDirSectors_disk
  simpa [Listing.add] using hloop

/-- The loop of `find_in_sectors` over a whole directory. -/
theorem findInSectors_all (base : U32) (n : ℕ) :
    findInSectors disk base name ext n 0#32 d = (foundIn d base n name ext, d) := by
  have hloop : findInSectors disk base name ext n (BitVec.ofNat 32 0) d = _ := findInSectors_disk
  simpa [foundIn] using hloop

/-- `fat16_list_root` on a mounted volume. -/
theorem fat16ListRoot_disk (hm : st.mounted = true) : fat16ListRoot disk maxEntries st =
    (listingOf st.dev st.vol.rootStart st.vol.rootDirSectors.toNat maxEntries, st) := by
  unfold fat16ListRoot
  rw [if_neg (not_not_intro hm), listDirSectors_all]
  rfl

/-- `fat16_list_dir` on a mounted volume. -/
theorem fat16ListDir_disk {dirCluster : U32} (hm : st.mounted = true) :
    fat16ListDir disk dirCluster maxEntries st =
      (listingOf st.dev (clusterToLba st.vol dirCluster) st.vol.sectorsPerCluster.toNat maxEntries,
        st) := by
  unfold fat16ListDir
  rw [if_neg (not_not_intro hm), listDirSectors_all]
  rfl

/-- `fat16_find_in_root` on a mounted volume. -/
theorem fat16FindInRoot_disk (hm : st.mounted = true) : fat16FindInRoot disk name ext st =
    (foundIn st.dev st.vol.rootStart st.vol.rootDirSectors.toNat name ext, st) := by
  unfold fat16FindInRoot
  rw [if_neg (not_not_intro hm), findInSectors_all]

/-- `fat16_find_in_dir` on a mounted volume. -/
theorem fat16FindInDir_disk {dirCluster : U32} (hm : st.mounted = true) :
    fat16FindInDir disk dirCluster name ext st =
      (foundIn st.dev (clusterToLba st.vol dirCluster) st.vol.sectorsPerCluster.toNat name ext,
        st) := by
  unfold fat16FindInDir
  rw [if_neg (not_not_intro hm), findInSectors_all]

end

end AlderKernel.Fs
