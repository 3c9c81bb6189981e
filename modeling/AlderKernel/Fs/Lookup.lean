import AlderKernel.Fs.Names

/-!
# Lookup agrees with listing

`list_dir_sectors` and `find_in_sectors` are two loops over the slots of a directory. On any device,
whatever is in its sectors and whichever reads fail, they go over the same entries in the same
order.
-/

namespace AlderKernel.Fs

open Machine SlotTable

/-- Slot `i` of a sector. -/
def sectorSlot (sector : Sector) (i : ℕ) : DirEntry := sector.slice (i * 32) 32

/-- The entries of a sector in front of its end marker, without the slots that are skipped. -/
def sectorEntries (sector : Sector) : List DirEntry :=
  (liveFrom slotEnded (sectorSlot sector) 0 16).filter fun e => !slotSkipped e

/-- A sector has an end marker. -/
def sectorEnds (sector : Sector) : Bool := reachesEnd slotEnded (sectorSlot sector) 0 16

section

variable {σ : Type} (a : Ata σ)

/-- The entries that are gone over in the sectors from `s` on: up to the first end marker, the first
failed read or the last sector. -/
def entriesFrom (startLba : U32) : ℕ → U32 → σ → List DirEntry × σ
  | 0, _, d => ([], d)
  | turns + 1, s, d =>
    let r := a.readSector (startLba + s) d
    if ¬ r.1.1 then ([], r.2) else
    if sectorEnds r.1.2 then (sectorEntries r.1.2, r.2) else
    let rest := entriesFrom startLba turns (s + 1#32) r.2
    (sectorEntries r.1.2 ++ rest.1, rest.2)

/-- The entries of a directory that are gone over; without a mounted volume there are none. -/
def Dir.enumerated (dir : Dir) (s : Fat16 σ) : List DirEntry :=
  if s.mounted then (entriesFrom a (dir.base s.vol) (dir.sectors s.vol) 0#32 s.dev).1 else []

/-- `fat16_list_root` or `fat16_list_dir`. -/
def Dir.list (dir : Dir) (maxEntries : ℤ) (s : Fat16 σ) : (ℤ × List Dirent) × Fat16 σ :=
  match dir with
  | .root => fat16ListRoot a maxEntries s
  | .cluster c => fat16ListDir a c maxEntries s

end

section

variable {σ : Type} {a : Ata σ} {startLba s : U32} {turns : ℕ} {maxEntries : ℤ} {l : Listing}
  {d : σ} {name ext : List U8}

/-- The loop of `list_dir_sectors` gathers the entries. -/
theorem listDirSectors_eq : listDirSectors a startLba maxEntries turns s l d =
    (l.add maxEntries (entriesFrom a startLba turns s d).1,
      (entriesFrom a startLba turns s d).2) := by
  induction turns generalizing s l d with
  | zero => simp [listDirSectors, entriesFrom, l.add_nil]
  | succ turns ih =>
    unfold listDirSectors entriesFrom
    dsimp only
    generalize a.readSector (startLba + s) d = r
    obtain ⟨⟨ok, sector⟩, d'⟩ := r
    have hslots : listSlots sector maxEntries 16 0 l =
        (sectorEnds sector, l.add maxEntries (sectorEntries sector)) :=
      listSlots_eq fun j _ => rfl
    cases ok with
    | false => simp [l.add_nil]
    | true =>
      rw [hslots]
      cases sectorEnds sector with
      | true => simp
      | false => simp [ih, Listing.add_append]

/-- The loop of `find_in_sectors` finds the first of the entries with the name. -/
theorem findInSectors_eq : (findInSectors a startLba name ext turns s d).1 =
    ((entriesFrom a startLba turns s d).1.find? fun e => namesEqual e name ext).map fillDirent := by
  induction turns generalizing s d with
  | zero => rfl
  | succ turns ih =>
    unfold findInSectors entriesFrom
    dsimp only
    generalize a.readSector (startLba + s) d = r
    obtain ⟨⟨ok, sector⟩, d'⟩ := r
    have hentries : (liveFrom slotEnded (sectorSlot sector) 0 16).filter (fun e => !slotSkipped e) =
        sectorEntries sector := rfl
    have hends : reachesEnd slotEnded (sectorSlot sector) 0 16 = sectorEnds sector := rfl
    have hslots := findSlots_eq sector (sectorSlot sector) name ext 16 0 0 fun j _ => rfl
    rw [hentries, hends] at hslots
    cases ok with
    | false => simp
    | true =>
      rw [hslots]
      cases hfind : (sectorEntries sector).find? (fun e => namesEqual e name ext) with
      | some e => cases sectorEnds sector <;> simp [hfind]
      | none => cases sectorEnds sector <;> simp [hfind, ih]

/-- Lookup agrees with listing. On any device and in any state, mounted or not, listing a directory
stores the dirents of one sequence of entries, as many as `max_entries` allows, and counts all of
them; and lookup returns 1 exactly when `names_equal` accepts one of these entries, with
the dirent of the first one. -/
theorem lookup_agrees (a : Ata σ) (dir : Dir) (s : Fat16 σ) :
    (∀ maxEntries, (dir.list a maxEntries s).1 =
      (if s.mounted then ((dir.enumerated a s).length : ℤ) else -1,
        ((dir.enumerated a s).take maxEntries.toNat).map fillDirent)) ∧
    ∀ name ext, ((dir.find a name ext s).1.isSome ↔
        ∃ e ∈ dir.enumerated a s, namesEqual e name ext = true) ∧
      (dir.find a name ext s).1 =
        ((dir.enumerated a s).find? fun e => namesEqual e name ext).map fillDirent := by
  have hfind (name ext : List U8) : (dir.find a name ext s).1 =
      ((dir.enumerated a s).find? fun e => namesEqual e name ext).map fillDirent := by
    unfold Dir.enumerated
    cases hm : s.mounted with
    | false => cases dir <;> simp [Dir.find, fat16FindInRoot, fat16FindInDir, hm]
    | true =>
      cases dir <;>
        simp [Dir.find, fat16FindInRoot, fat16FindInDir, hm, findInSectors_eq, Dir.base,
          Dir.sectors]
  refine ⟨fun maxEntries => ?_, fun name ext => ⟨?_, hfind name ext⟩⟩
  · unfold Dir.enumerated
    cases hm : s.mounted with
    | false => cases dir <;> simp [Dir.list, fat16ListRoot, fat16ListDir, hm]
    | true =>
      cases dir <;>
        simp [Dir.list, fat16ListRoot, fat16ListDir, hm, listDirSectors_eq, Dir.base, Dir.sectors,
          Listing.add]
  · rw [hfind, Option.isSome_map, List.find?_isSome]

end

end AlderKernel.Fs
