import AlderKernel.Fs.Chains
import AlderKernel.Fs.Entries

/-!
# What successful calls have made

The files and directories that calls have made on a formatted volume, in the order of the
calls. Each has its own chain of clusters, the data of a file lies in its chain, and a directory
holds the entries of the calls on it one behind the other.
-/

namespace AlderKernel.Fs

open Machine SlotTable

/-- A directory: the root directory, or the one in a cluster. -/
inductive Dir where
  | root
  | cluster (c : U32)
  deriving DecidableEq

/-- The address of the first sector of a directory. -/
def Dir.base (v : Volume) : Dir → U32
  | .root => v.rootStart
  | .cluster c => clusterToLba v c

/-- The number of sectors of a directory. -/
def Dir.sectors (v : Volume) : Dir → ℕ
  | .root => v.rootDirSectors.toNat
  | .cluster _ => v.sectorsPerCluster.toNat

/-- The entries that a directory has from the start. -/
def Dir.dots : Dir → List DirEntry
  | .root => []
  | .cluster c => [setDirEntry [0x2E#8] [] attrDirectory c 0#32,
      setDirEntry [0x2E#8, 0x2E#8] [] attrDirectory 0#32 0#32]

/-- The live entries of a directory, in the order of their slots. -/
def Dir.entries (v : Volume) (d : Disk) (dir : Dir) : List DirEntry :=
  shownFrom d (dir.base v) 0 (16 * dir.sectors v)

namespace Call

/-- The directory that gets the new entry. -/
def dir : Call → Dir
  | .mkdirRoot _ _ => .root
  | .createFileRoot _ _ _ _ => .root
  | .createFileInDir dirCluster _ _ _ _ => .cluster dirCluster

/-- The name that is passed. -/
def name : Call → List U8
  | .mkdirRoot name _ => name
  | .createFileRoot name _ _ _ => name
  | .createFileInDir _ name _ _ _ => name

/-- The extension that is passed. -/
def ext : Call → List U8
  | .mkdirRoot _ ext => ext
  | .createFileRoot _ ext _ _ => ext
  | .createFileInDir _ _ ext _ _ => ext

/-- The attribute of the new entry. -/
def attr : Call → U8
  | .mkdirRoot _ _ => attrDirectory
  | .createFileRoot _ _ _ _ => attrFile
  | .createFileInDir _ _ _ _ _ => attrFile

/-- The data of a new file. -/
def data : Call → U32 → U8
  | .mkdirRoot _ _ => fun _ => 0#8
  | .createFileRoot _ _ data _ => data
  | .createFileInDir _ _ _ data _ => data

/-- The size of a new file. -/
def size : Call → U32
  | .mkdirRoot _ _ => 0#32
  | .createFileRoot _ _ _ size => size
  | .createFileInDir _ _ _ _ size => size

/-- The number of clusters that the call needs. -/
def clusters : Call → ℕ
  | .mkdirRoot _ _ => 1
  | .createFileRoot _ _ _ size => clustersFor size
  | .createFileInDir _ _ _ _ size => clustersFor size

/-- The call makes a directory. -/
def isMkdir : Call → Bool
  | .mkdirRoot _ _ => true
  | .createFileRoot _ _ _ _ => false
  | .createFileInDir _ _ _ _ _ => false

/-- The entry of the call counts as live: a name that starts with `0xE5` makes a deleted slot. -/
def live (call : Call) : Bool := call.name.head? ≠ some 0xE5#8

/-- The first sector that a call looks at is that of its directory. -/
theorem base_eq (call : Call) (v : Volume) : call.base v = call.dir.base v := by
  cases call <;> rfl

/-- A call looks at the sectors of its directory. -/
theorem sectors_eq (call : Call) (v : Volume) : call.sectors v = call.dir.sectors v := by
  cases call <;> rfl

/-- The entry that a call writes. -/
theorem entry_eq (call : Call) (cluster : U32) :
    call.entry cluster = setDirEntry call.name call.ext call.attr cluster call.size := by
  cases call <;> rfl

end Call

/-- What a successful call has made. -/
structure Made where
  call : Call
  /-- The first cluster, or 0 for a file without data. -/
  first : ℕ

/-- The directory entry. -/
def Made.entry (o : Made) : DirEntry := o.call.entry (BitVec.ofNat 32 o.first)

/-- The clusters of the file or directory. -/
def Made.clusters (o : Made) : Set ℕ := Set.Ico o.first (o.first + o.call.clusters)

/-- The data of a file lies in the clusters from `first` on. -/
def DataStored (p : U32) (d : Disk) (first : ℕ) (data : U32 → U8) (size : U32) : Prop :=
  ∀ i < clustersFor size, ∀ s < 64, sectorOf p d (first + i) s = dataSector data size (64 * i + s)

/-- The entries of a directory that are seen, in the order of the calls. -/
def liveEntries (dir : Dir) (l : List Made) : List DirEntry :=
  (l.filter fun o => o.call.dir = dir ∧ o.call.live).map Made.entry

/-- The slots of a directory are its entries, at most one slot that the next call takes again, and
ended slots. -/
def DirHolds (p : U32) (d : Disk) (dir : Dir) (es : List DirEntry) : Prop :=
  ∃ tail : List DirEntry, tail.length ≤ 1 ∧ (∀ e ∈ tail, e.byte 0 = 0xE5#8) ∧
    Holds slotEnded (slotAt d (dir.base (formattedVolume p)))
      (16 * dir.sectors (formattedVolume p)) (es ++ tail)

/-- The root directory, or one that was made. -/
def IsDir (l : List Made) (dir : Dir) : Prop :=
  dir = .root ∨ ∃ o ∈ l, o.call.isMkdir = true ∧ dir = .cluster (BitVec.ofNat 32 o.first)

/-- The disk has what successful calls have made, and the clusters in front of `next` are in use. -/
structure Stores (p : U32) (d : Disk) (next : ℕ) (l : List Made) : Prop where
  used : FatUsed p d next
  empty : ∀ o ∈ l, o.call.clusters = 0 → o.first = 0
  bounds : ∀ o ∈ l, 0 < o.call.clusters → 2 ≤ o.first ∧ o.first + o.call.clusters ≤ next
  apart : l.Pairwise fun o o' => Disjoint o.clusters o'.clusters
  chained : ∀ o ∈ l, Chained p d o.first o.call.clusters
  data : ∀ o ∈ l, DataStored p d o.first o.call.data o.call.size
  dirs : ∀ o ∈ l, IsDir l o.call.dir
  table : ∀ dir, IsDir l dir → DirHolds p d dir (dir.dots ++ liveEntries dir l)

/-! ### Where a directory lies -/

/-- The root directory, or the directory in a cluster that has an entry in the FAT. -/
def Dir.Valid : Dir → Prop
  | .root => True
  | .cluster c => 2 ≤ c.toNat ∧ c.toNat < 65536

/-- The number of the first sector of a directory. -/
def Dir.start : Dir → ℕ
  | .root => 512
  | .cluster c => 544 + (c.toNat - 2) * 64

section

variable {p : U32} {d d' : Disk} {dir dir' : Dir} {e : DirEntry} {es : List DirEntry} {i k : ℕ}

/-- The sectors of a directory follow one another. -/
theorem Dir.Valid.base_add (h : dir.Valid) (i : ℕ) :
    dir.base (formattedVolume p) + BitVec.ofNat 32 i = (formattedVolume p).lba (dir.start + i) := by
  have hmounted := formattedVolume_mounted p
  cases dir with
  | root =>
    change (formattedVolume p).rootStart + _ = _
    rw [hmounted.rootStart_lba, formatted_rootOffset, Volume.lba_add]
    rfl
  | cluster c =>
    have hsum := hmounted.clusterToLba_eq h.1 i
    rw [BitVec.ofNat_toNat, BitVec.setWidth_eq, formatted_clusterOffset] at hsum
    exact hsum

/-- A directory ends in front of the sectors that have no number. -/
theorem Dir.Valid.start_lt (h : dir.Valid) :
    512 ≤ dir.start ∧ dir.start + dir.sectors (formattedVolume p) ≤ 2 ^ 23 := by
  cases dir with
  | root =>
    change 512 ≤ 512 ∧ 512 + 32 ≤ 2 ^ 23
    omega
  | cluster c =>
    obtain ⟨hc, hc'⟩ := h
    change 512 ≤ 544 + (c.toNat - 2) * 64 ∧ 544 + (c.toNat - 2) * 64 + 64 ≤ 2 ^ 23
    omega

/-- The directory in cluster `c`. -/
theorem Dir.valid_cluster {c : ℕ} (hc : 2 ≤ c) (hlt : c < 65536) :
    (Dir.cluster (BitVec.ofNat 32 c)).Valid ∧
      (Dir.cluster (BitVec.ofNat 32 c)).start = 544 + (c - 2) * 64 := by
  have htoNat : (BitVec.ofNat 32 c).toNat = c := by
    rw [BitVec.toNat_ofNat, Nat.mod_eq_of_lt (by omega)]
  exact ⟨⟨by omega, by omega⟩, by rw [start, htoNat]⟩

/-- Different directories have different sectors. -/
theorem Dir.Valid.apart (h : dir.Valid) (h' : dir'.Valid) (hne : dir ≠ dir') :
    dir.start + dir.sectors (formattedVolume p) ≤ dir'.start ∨
      dir'.start + dir'.sectors (formattedVolume p) ≤ dir.start := by
  have hroot : Dir.root.sectors (formattedVolume p) = 32 := rfl
  have hcluster (c : U32) : (Dir.cluster c).sectors (formattedVolume p) = 64 := rfl
  cases dir with
  | root =>
    cases dir' with
    | root => exact absurd rfl hne
    | cluster c' =>
      rw [hroot, Dir.start, Dir.start]
      omega
  | cluster c =>
    cases dir' with
    | root =>
      rw [hroot, Dir.start, Dir.start]
      omega
    | cluster c' =>
      have hne' : c.toNat ≠ c'.toNat := fun heq => hne (by rw [BitVec.eq_of_toNat_eq heq])
      obtain ⟨hc, -⟩ := h
      obtain ⟨hc', -⟩ := h'
      rw [hcluster, hcluster, Dir.start, Dir.start]
      omega

/-- The slots of a directory are decided by its sectors. -/
theorem Dir.Valid.slotAt_congr (h : dir.Valid)
    (hd : ∀ k, dir.start ≤ k → k < dir.start + dir.sectors (formattedVolume p) →
      d' ((formattedVolume p).lba k) = d ((formattedVolume p).lba k)) :
    ∀ j < 16 * dir.sectors (formattedVolume p), slotAt d' (dir.base (formattedVolume p)) j =
      slotAt d (dir.base (formattedVolume p)) j := by
  intro j hj
  unfold slotAt
  rw [h.base_add, hd _ (by omega) (by omega)]

/-- What a directory holds depends on its sectors. -/
theorem DirHolds.congr (hholds : DirHolds p d dir es) (h : dir.Valid)
    (hd : ∀ k, dir.start ≤ k → k < dir.start + dir.sectors (formattedVolume p) →
      d' ((formattedVolume p).lba k) = d ((formattedVolume p).lba k)) : DirHolds p d' dir es := by
  obtain ⟨tail, hlen, hdeleted, hslots⟩ := hholds
  exact ⟨tail, hlen, hdeleted, hslots.congr (h.slotAt_congr hd)⟩

/-- Putting an entry in a slot changes the directory and nothing else. -/
theorem Dir.Valid.putSlot_lba (h : dir.Valid) (hi : i < 16 * dir.sectors (formattedVolume p))
    (hk : k < 2 ^ 32) (hout : k < dir.start ∨ dir.start + dir.sectors (formattedVolume p) ≤ k) :
    putSlot d (dir.base (formattedVolume p)) i e ((formattedVolume p).lba k) =
      d ((formattedVolume p).lba k) := by
  have hlt := h.start_lt (p := p)
  unfold putSlot
  rw [h.base_add, Function.update_of_ne]
  rw [Ne, Volume.lba_inj hk (by omega)]
  omega

/-- A directory without a slot for a new entry is full of entries. -/
theorem DirHolds.full (hholds : DirHolds p d dir es)
    (hused : ∀ i < 16 * dir.sectors (formattedVolume p),
      slotUsable (slotAt d (dir.base (formattedVolume p)) i) = false) :
    16 * dir.sectors (formattedVolume p) ≤ es.length := by
  obtain ⟨tail, hlen, hdeleted, hslots⟩ := hholds
  by_contra hlt
  have hslot := hused es.length (by omega)
  cases tail with
  | nil =>
    have hended := hslots.rest es.length (by simp) (by omega)
    rw [slotUsable_of_ended hended] at hslot
    exact absurd hslot (by decide)
  | cons t tail =>
    rw [hslots.slot_eq es.length t (by simp)] at hslot
    simp [slotUsable, hdeleted t] at hslot

/-- A new entry goes behind the entries of its directory. -/
theorem DirHolds.place (hholds : DirHolds p d dir es) (h : dir.Valid)
    (hes : ∀ x ∈ es, slotUsable x = false) (he : slotEnded e = false)
    (hi : i < 16 * dir.sectors (formattedVolume p))
    (husable : slotUsable (slotAt d (dir.base (formattedVolume p)) i) = true)
    (hfirst : ∀ j < i, slotUsable (slotAt d (dir.base (formattedVolume p)) j) = false) :
    Holds slotEnded (slotAt (putSlot d (dir.base (formattedVolume p)) i e)
        (dir.base (formattedVolume p))) (16 * dir.sectors (formattedVolume p)) (es ++ [e]) := by
  obtain ⟨tail, hlen, hdeleted, hslots⟩ := hholds
  have hlt := h.start_lt (p := p)
  have hle : i ≤ (es ++ tail).length := hslots.le_length (fun _ => slotUsable_of_ended) hi.le hfirst
  rw [List.length_append] at hle
  -- The slots in front of `es.length` are used, and the one that may follow is not.
  have hge : es.length ≤ i := by
    by_contra hlt
    have hslot := hslots.slot_eq i es[i] (by
      rw [List.getElem?_append_left (by omega), List.getElem?_eq_getElem (by omega)])
    rw [hslot, hes _ (List.getElem_mem _)] at husable
    exact absurd husable (by decide)
  obtain rfl : i = es.length := by
    by_contra hne
    obtain ⟨t, rfl⟩ := List.length_eq_one_iff.mp (show tail.length = 1 by omega)
    have hslot := hslots.slot_eq es.length t (by simp)
    have hused := hfirst es.length (by omega)
    rw [hslot] at hused
    simp [slotUsable, hdeleted t] at hused
  have hput (j : ℕ) (hj : j < 16 * dir.sectors (formattedVolume p)) :
      slotAt (putSlot d (dir.base (formattedVolume p)) es.length e)
        (dir.base (formattedVolume p)) j =
        if j = es.length then e else slotAt d (dir.base (formattedVolume p)) j :=
    slotAt_putSlot (by omega) (by omega)
  have hplace := hslots.place (by simp) hi he hput
  rwa [SlotTable.place, List.take_left, List.drop_of_length_le (by simp; omega)] at hplace

end

/-! ### New entries -/

section

variable {p : U32} {d d' : Disk} {dir : Dir} {l : List Made} {o : Made} {next next' : ℕ}

/-- A directory takes one cluster. -/
theorem Call.clusters_of_isMkdir {call : Call} (h : call.isMkdir = true) : call.clusters = 1 := by
  cases call with
  | mkdirRoot name ext => rfl
  | createFileRoot name ext data size => exact absurd h (by simp [isMkdir])
  | createFileInDir dirCluster name ext data size => exact absurd h (by simp [isMkdir])

/-- A call that makes a directory has no data. -/
theorem Call.clustersFor_size (call : Call) : clustersFor call.size ≤ call.clusters ∧
    (0 < clustersFor call.size → call.isMkdir = false) := by
  cases call with
  | mkdirRoot name ext => simp [size, clustersFor, clusters]
  | createFileRoot name ext data size => exact ⟨le_rfl, fun _ => rfl⟩
  | createFileInDir dirCluster name ext data size => exact ⟨le_rfl, fun _ => rfl⟩

/-- The entry of a call does not end the directory. -/
theorem Made.slotEnded_entry (o : Made) : slotEnded o.entry = false := by
  rw [Made.entry, Call.entry_eq]
  simp [slotEnded, setDirEntry_first_ne]

/-- The slot of an entry is taken again when its name begins with the deleted mark. -/
theorem Made.slotUsable_entry (o : Made) : slotUsable o.entry = !o.call.live := by
  rw [Made.entry, Call.entry_eq]
  simp [slotUsable, setDirEntry_first_ne, setDirEntry_first_deleted, Call.live]

/-- The slots of '.', '..' and the live entries are not taken again. -/
theorem slotUsable_of_mem {x : DirEntry} (hx : x ∈ dir.dots ++ liveEntries dir l) :
    slotUsable x = false := by
  rcases List.mem_append.mp hx with hdot | hlive
  · cases dir with
    | root => exact absurd hdot List.not_mem_nil
    | cluster c =>
      simp only [Dir.dots, List.mem_cons, List.not_mem_nil, or_false] at hdot
      rcases hdot with rfl | rfl
      · simp [slotUsable, setDirEntry_first, cString]
      · simp [slotUsable, setDirEntry_first, cString]
  · obtain ⟨o, ho, rfl⟩ := List.mem_map.mp hlive
    have hlive := (of_decide_eq_true (List.mem_filter.mp ho).2).2
    rw [o.slotUsable_entry, hlive]
    rfl

/-- The entries of a directory after one more call. -/
theorem liveEntries_concat : liveEntries dir (l ++ [o]) =
    liveEntries dir l ++ if o.call.dir = dir ∧ o.call.live then [o.entry] else [] := by
  unfold liveEntries
  rw [List.filter_append, List.map_append]
  split_ifs with hin
  · simp [hin]
  · simp [hin]

/-- A directory stays one when more is made. -/
theorem IsDir.concat (h : IsDir l dir) : IsDir (l ++ [o]) dir := by
  rcases h with rfl | ⟨o', ho', hmkdir, rfl⟩
  · exact .inl rfl
  · exact .inr ⟨o', List.mem_append_left _ ho', hmkdir, rfl⟩

namespace Stores

/-- Nothing is stored after formatting. -/
theorem formatted {count : U32} : Stores p (formattedDisk p count d) 2 [] where
  used := .formatted
  empty o ho := absurd ho List.not_mem_nil
  bounds o ho := absurd ho List.not_mem_nil
  apart := .nil
  chained o ho := absurd ho List.not_mem_nil
  data o ho := absurd ho List.not_mem_nil
  dirs o ho := absurd ho List.not_mem_nil
  table dir hdir := by
    rcases hdir with rfl | ⟨o, ho, -⟩
    · have hzero (i : ℕ) (hi : i < 512) : slotEnded (slotAt (formattedDisk p count d)
          (formattedVolume p).rootStart i) = true := by
        rw [formattedDisk_slot hi]
        simp [slotEnded]
      refine ⟨[], by simp, by simp, ⟨by simp [Dir.dots, liveEntries], ?_, ?_, ?_⟩⟩
      · simp [Dir.dots, liveEntries]
      · simp [Dir.dots, liveEntries]
      · exact fun i _ hi => hzero i hi
    · exact absurd ho List.not_mem_nil

/-- A directory that was made lies in front of the free clusters. -/
theorem dir_valid (h : Stores p d next l) (hdir : IsDir l dir) : dir.Valid ∧
    dir.start + dir.sectors (formattedVolume p) ≤ 544 + (next - 2) * 64 := by
  have hle := h.used.le
  rcases hdir with rfl | ⟨o, ho, hmkdir, rfl⟩
  · exact ⟨trivial, by change 512 + 32 ≤ _; omega⟩
  · have hclusters := o.call.clusters_of_isMkdir hmkdir
    obtain ⟨hfirst, hnext⟩ := h.bounds o ho (by omega)
    obtain ⟨hvalid, hstart⟩ := Dir.valid_cluster hfirst (by omega)
    refine ⟨hvalid, ?_⟩
    rw [hstart]
    change 544 + (o.first - 2) * 64 + 64 ≤ _
    omega

/-- First clusters fit the 16 bits that an entry has for them. -/
theorem first_lt (h : Stores p d next l) (ho : o ∈ l) : o.first < 65536 := by
  have hle := h.used.le
  rcases Nat.eq_zero_or_pos o.call.clusters with hempty | hpos
  · rw [h.empty o ho hempty]
    omega
  · have hbounds := h.bounds o ho hpos
    omega

/-- What is stored stays when only free clusters change. -/
theorem frame (h : Stores p d next l)
    (hd : ChangesOnly (formattedVolume p) (clustersFrom next) d d') (hused : FatUsed p d' next')
    (hle : next ≤ next') : Stores p d' next' l := by
  have hmax := h.used.le
  refine ⟨hused, h.empty, fun o ho hpos => ?_, h.apart, fun o ho i hi => ?_,
    fun o ho i hi s hs => ?_, h.dirs, fun dir hdir => ?_⟩
  · have hbounds := h.bounds o ho hpos
    omega
  · have hbounds := h.bounds o ho (by omega)
    rw [hd.entry_eq (by omega) hmax, h.chained o ho i hi]
  · have hsize := o.call.clustersFor_size.1
    have hbounds := h.bounds o ho (by omega)
    rw [hd.sectorOf_eq (by omega) (by omega) hmax hs, h.data o ho i hi s hs]
  · obtain ⟨hvalid, hend⟩ := h.dir_valid hdir
    have hstart := hvalid.start_lt (p := p)
    exact (h.table dir hdir).congr hvalid fun k hk hk' => hd.lba_eq (by omega) (by omega) hmax

end Stores

end

end AlderKernel.Fs
