import AlderKernel.Fs.Lookup
import AlderKernel.Fs.EntryChains

/-!
# What was stored is read back

On a formatted volume a directory lists the successful calls on it in their order, and reading an
entry gives the data of its call, whatever later calls did. Reading stops where the chain of the
entry ends, and the chain is as long as the data takes.
-/

namespace AlderKernel.Fs

open Machine

/-- `fat16_read_file` reads these data from an entry, into any buffer that is large enough, and
leaves the rest of the buffer alone. -/
def ReadsBack (s : Fat16 Disk) (e : Dirent) (data : U32 → U8) : Prop :=
  ∀ buffer (bufferSize : U32), e.size.toNat ≤ bufferSize.toNat → ∃ r,
    fat16ReadFile disk e.cluster e.size buffer bufferSize s = some r ∧ r.1.1 = true ∧
      ∀ i : U32, r.1.2 i = if i.toNat < e.size.toNat then data i else buffer i

/-- A listed entry is the one of a call. -/
structure Listed (s : Fat16 Disk) (call : Call) (e : Dirent) : Prop where
  name : e.name = shownName 8 call.name
  ext : e.ext = shownName 3 call.ext
  attr : e.attr = call.attr
  size : e.size = call.size
  data : call.isMkdir = false → ReadsBack s e call.data

section

variable {p count : U32} {s s₀ sf : Fat16 Disk} {log : List (Call × Result)} {l : List Made}
  {o : Made} {dir : Dir} {c : U32} {cs : List U32} {d : Disk} {first next k : ℕ}
  {data : U32 → U8} {size : U32} {maxEntries : ℤ}

/-- A chain has a first cluster. -/
theorem FatChain.ne_nil (h : FatChain s c cs) : cs ≠ [] := by
  cases h <;> simp

/-- Following the FAT for as many clusters as its chain has goes over the chain. -/
theorem FatChain.walk_eq (h : FatChain s c cs) (j : ℕ) :
    walk (fun _ c => (fatReadEntry disk c s).1) cs.length j c = cs := by
  induction h generalizing j with
  | last hend => rw [List.length_singleton, walk, if_pos (.inl rfl)]
  | link hmore hrest ih =>
    have hpos := List.length_pos_iff.mpr hrest.ne_nil
    rw [List.length_cons, walk, if_neg, ih]
    rw [not_or]
    exact ⟨by omega, hmore⟩

/-- The bytes of the clusters of a file are its data. -/
theorem DataStored.clusterByte_eq (h : DataStored p d first data size) (hfirst : 2 ≤ first)
    (hk : k < size.toNat) :
    clusterByte (formattedVolume p) d (BitVec.ofNat 32 (first + k / 32768)) (k % 32768) =
      data (BitVec.ofNat 32 k) := by
  have hcluster : k / 32768 < clustersFor size := by
    unfold clustersFor
    omega
  have hsector := h (k / 32768) hcluster (k % 32768 / 512) (by omega)
  have hbyte : 512 * (64 * (k / 32768) + k % 32768 / 512) + k % 32768 % 512 = k := by omega
  unfold sectorOf at hsector
  unfold clusterByte
  rw [(formattedVolume_mounted p).clusterToLba_eq (by omega), hsector, dataSector,
    Buffer.byte_ofFn (by omega), hbyte, if_pos hk]

/-- The clusters of a chain follow one another. -/
theorem Made.chain_getD (hk : k < o.call.clusters) :
    o.chain.getD k 0#32 = BitVec.ofNat 32 (o.first + k) := by
  unfold Made.chain
  rw [List.getD_eq_getElem _ _ (by simpa using hk), List.getElem_map, List.getElem_range',
    Nat.one_mul]

/-- The data of a file are read back. -/
theorem Stores.readsBack (h : Stores p s.dev next l) (hm : MountedAt p s) (hnext : next ≤ 0xFFF8)
    (ho : o ∈ l) : ReadsBack s (fillDirent o.entry) o.call.data := by
  have hmounted : MountedVolume s.vol := by
    rw [hm.vol]
    exact formattedVolume_mounted p
  have hbytes : s.vol.bytesPerSector = 512#32 := by
    rw [hm.vol]
    rfl
  have hchain := h.hasChain hm hnext ho
  rw [h.fillDirent_entry ho] at hchain ⊢
  intro buffer bufferSize hsize
  dsimp only at hsize ⊢
  have hsucceeds (lba : U32) (d : Disk) : (disk.readSector lba d).1.1 = true := rfl
  obtain ⟨r, hr, hok⟩ := fat16ReadFile_succeeds s (BitVec.ofNat 32 o.first) o.call.size bufferSize
    buffer hsucceeds hmounted hm.mounted
  refine ⟨r, hr, hok, ?_⟩
  obtain ⟨hle, hfile⟩ := o.call.clustersFor_size
  by_cases hempty : o.call.size = 0#32
  · -- Nothing is read, and the buffer stays as it is.
    unfold fat16ReadFile at hr
    rw [if_neg (not_not_intro hm.mounted), if_pos (.inl hempty)] at hr
    obtain rfl := Option.some.inj hr
    simp [hempty]
  · have hpos : 0 < o.call.size.toNat := by bv_omega
    have hneeded : 0 < clustersFor o.call.size := by
      unfold clustersFor
      omega
    obtain ⟨htwo, hend⟩ := h.bounds o ho (by omega)
    have hne : BitVec.ofNat 32 o.first ≠ 0#32 := by bv_omega
    have hclusters := (Call.store_of_file (s := s) (hfile hneeded)).1
    obtain ⟨hvisits, hread⟩ := fat16ReadFile_content disk_readsContent (disk_readsEntries s) rfl
      hm.mounted hmounted hbytes hne hpos hsize hr hok
    have hlength := hchain.length
    have hfat := hchain.chain
    rw [hm.vol, Call.entryClusters_eq, hclusters] at hlength
    rw [EntryChain, if_neg hne] at hfat
    have hwalk := hfat.walk_eq 0
    rw [hlength] at hwalk
    rw [hm.vol, formatted_clustersNeeded, hwalk] at hvisits
    rw [hvisits, hlength, hm.vol, formatted_sectorsPerCluster] at hread
    intro i
    have hcover : o.call.size.toNat ≤ 512 * 64 * clustersFor o.call.size := by
      unfold clustersFor
      omega
    rw [hread, Nat.min_eq_left hcover]
    by_cases hi : i.toNat < o.call.size.toNat
    · have hcluster : i.toNat / 32768 < o.call.clusters := by
        rw [hclusters, clustersFor]
        omega
      rw [if_pos hi, if_pos hi, Made.chain_getD hcluster]
      have hbyte := (h.data o ho).clusterByte_eq htwo hi
      rw [BitVec.ofNat_toNat, BitVec.setWidth_eq] at hbyte
      exact hbyte
    · rw [if_neg hi, if_neg hi]

/-- A listing gives the entries of the directory in order. -/
theorem Dir.list_disk (hm : s.mounted = true) : (dir.list disk maxEntries s).1 =
    (((dir.entries s.vol s.dev).length : ℤ),
      ((dir.entries s.vol s.dev).take maxEntries.toNat).map fillDirent) := by
  cases dir with
  | root =>
    rw [Dir.list, fat16ListRoot_disk hm]
    rfl
  | cluster c =>
    rw [Dir.list, fat16ListDir_disk hm]
    rfl

/-- The entries of a directory are those of the calls on it. -/
theorem Stores.listed (h : Stores p s.dev next l) (hm : MountedAt p s) (hnext : next ≤ 0xFFF8)
    (hlog : succeeded log = l.map Made.report) :
    List.Forall₂ (Listed s) (callsOn log dir) ((liveEntries dir l).map fillDirent) := by
  rw [callsOn_eq hlog, liveEntries, List.map_map, List.forall₂_map_left_iff,
    List.forall₂_map_right_iff, List.forall₂_same]
  intro o ho
  have hmem := (List.mem_filter.mp ho).1
  have hdata := h.readsBack hm hnext hmem
  rw [Function.comp_apply, h.fillDirent_entry hmem] at *
  exact ⟨rfl, rfl, rfl, rfl, fun _ => hdata⟩

/-- Directories list the calls on them, and files give their data. For every state that calls on
known directories reach on a fresh volume, failed ones included, while no more clusters are in use
than the partition has: a listing with room enough returns '.' and '..' in a subdirectory and then
one entry for each successful call on the directory, in their order, with its name, attribute and
size; and `fat16_read_file` on the entry of a file returns 1 and the data of its call. -/
theorem listing_of_calls (hformat : fat16Format disk p count d = (true, sf.dev))
    (hmount : fat16Mount disk p sf = (true, s₀)) (hrun : CallRun OnKnown s₀ s log)
    (hroom : allocatedClusters s.vol s.dev ≤ (clusterCount count).toNat) (hdir : Known log dir) :
    ∃ es, List.Forall₂ (Listed s) (callsOn log dir) es ∧
      ∀ maxEntries, ((dir.dots.length + es.length : ℕ) : ℤ) ≤ maxEntries →
        (dir.list disk maxEntries s).1 =
          (((dir.dots.length + es.length : ℕ) : ℤ), dir.dots.map fillDirent ++ es) := by
  obtain ⟨hm₀, hs₀⟩ := stores_fresh hformat hmount
  obtain ⟨hm, next, l, hstores, hlog⟩ := hrun.stores (fun _ _ h => h) hm₀ hs₀
  have hnext := hstores.next_le hm (fat16Format_disk hformat).2 hroom
  refine ⟨_, hstores.listed hm hnext hlog, fun maxEntries hmax => ?_⟩
  rw [List.length_map] at hmax ⊢
  rw [Dir.list_disk hm.mounted, hm.vol, hstores.entries_eq (hdir.isDir hlog),
    List.take_of_length_le (by rw [List.length_append]; omega), List.length_append, List.map_append]

end

/-- A call that makes a file of three bytes. -/
def note : Call := .createFileRoot [0x41#8] [] (fun i => i.setWidth 8) 3#32

/-- The file is listed and read on an empty volume. -/
theorem note_read_back : ∃ s, CallRun OnKnown emptyMounted s [(note, .file)] ∧
    ∃ es, List.Forall₂ (Listed s) [note] es ∧ ∀ maxEntries, ((0 + es.length : ℕ) : ℤ) ≤ maxEntries →
      (Dir.root.list disk maxEntries s).1 = (((0 + es.length : ℕ) : ℤ), es) := by
  obtain ⟨hm₀, hs₀⟩ := emptyMounted_stores
  have hclusters : note.clusters = 1 := by simp [note, Call.clusters, clustersFor]
  obtain ⟨f, s, hr, hm, hs⟩ := hs₀.succeeds hm₀ note (.inl rfl) (by omega) (entries_lt (by simp))
  have hrun : CallRun OnKnown emptyMounted s [(note, .file)] := .call .start (.inl rfl) hr
  have hroom : allocatedClusters s.vol s.dev ≤ (clusterCount 297952#32).toNat := by
    rw [hm.vol, hs.used.allocated, hclusters]
    decide
  have hcalls : callsOn [(note, .file)] .root = [note] := by
    simp [callsOn, succeeded, note, Call.dir, Call.live, Call.name]
  have hlisting := listing_of_calls emptyMounted_fresh.1 emptyMounted_fresh.2 hrun hroom
    (.inl rfl : Known _ .root)
  rw [hcalls] at hlisting
  exact ⟨s, hrun, hlisting⟩

end AlderKernel.Fs
