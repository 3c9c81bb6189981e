import AlderKernel.Fs.PartitionBounds
import AlderKernel.Fs.ReadFile

/-!
# The chains of directory entries

Each live entry has a chain of its own in the FAT, and the chain is as long as the size of the
entry says. Links are 16 bits wide and from `0xFFF8` on they end a chain, so this needs that no more
clusters are in use than the partition has.
-/

namespace AlderKernel.Fs

open Machine

/-- The clusters that are visited when the FAT is followed from a cluster on, up to the first value
from `0xFFF8` on. -/
inductive FatChain (s : Fat16 Disk) : U32 → List U32 → Prop
  | last {c : U32} : 0xFFF8#16 ≤ (fatReadEntry disk c s).1 → FatChain s c [c]
  | link {c : U32} {cs : List U32} : ¬ 0xFFF8#16 ≤ (fatReadEntry disk c s).1 →
      FatChain s ((fatReadEntry disk c s).1.setWidth 32) cs → FatChain s c (c :: cs)

/-- The clusters of an entry. Without a first cluster there are none. -/
def EntryChain (s : Fat16 Disk) (e : Dirent) (cs : List U32) : Prop :=
  if e.cluster = 0#32 then cs = [] else FatChain s e.cluster cs

/-- How many clusters an entry takes: one for a directory, and for a file as many as its data. -/
def entryClusters (v : Volume) (e : Dirent) : ℕ :=
  if e.attr = attrDirectory then 1 else v.clustersNeeded e.size.toNat

/-- The clusters of an entry are different data clusters, and as many as it takes. -/
structure HasChain (s : Fat16 Disk) (e : Dirent) (cs : List U32) : Prop where
  chain : EntryChain s e cs
  nodup : cs.Nodup
  two_le : ∀ c ∈ cs, 2 ≤ c.toNat
  length : cs.length = entryClusters s.vol e

/-- The number of clusters that are not free. -/
def allocatedClusters (v : Volume) (d : Disk) : ℕ :=
  ((Finset.Ico 2 v.clusters).filter fun c => entryAt v d 0 c ≠ 0#16).card

/-- The live entries of a directory behind '.' and '..'. -/
def Dir.added (v : Volume) (d : Disk) (dir : Dir) : List DirEntry :=
  (dir.entries v d).drop dir.dots.length

/-- The chains of different entries of two directories, or of one, share no cluster. -/
def ChainsApart (s : Fat16 Disk) (dir dir' : Dir) : Prop :=
  ∀ i i' : ℕ, (dir, i) ≠ (dir', i') → ∀ e e', (dir.added s.vol s.dev)[i]? = some e →
    (dir'.added s.vol s.dev)[i']? = some e' → ∀ cs cs', EntryChain s (fillDirent e) cs →
      EntryChain s (fillDirent e') cs' → cs.Disjoint cs'

/-- The clusters of what a call has made. -/
def Made.chain (o : Made) : List U32 := (List.range' o.first o.call.clusters).map (BitVec.ofNat 32)

section

variable {p count : U32} {s s₀ sf : Fat16 Disk} {log : List (Call × Result)} {l : List Made}
  {o o' : Made} {dir dir' : Dir} {c : U32} {cs cs' : List U32} {d : Disk} {first next n i i' : ℕ}

/-- The FAT leads to one chain. -/
theorem FatChain.unique (h : FatChain s c cs) (h' : FatChain s c cs') : cs = cs' := by
  induction h generalizing cs' with
  | last hend =>
    cases h' with
    | last _ => rfl
    | link hmore _ => exact absurd hend hmore
  | link hmore _ ih =>
    cases h' with
    | last hend => exact absurd hend hmore
    | link _ hrest => rw [ih hrest]

/-- An entry has one chain. -/
theorem EntryChain.unique {e : Dirent} (h : EntryChain s e cs) (h' : EntryChain s e cs') :
    cs = cs' := by
  unfold EntryChain at h h'
  split_ifs at h h' with hempty
  · rw [h, h']
  · exact h.unique h'

/-- `fat_read_entry` reads the entry of the first copy of the FAT. -/
theorem MountedAt.readEntry (hm : MountedAt p s) {c : ℕ} (hc : c < 65536) :
    (fatReadEntry disk (BitVec.ofNat 32 c) s).1 = entryAt (formattedVolume p) s.dev 0 c := by
  have hmounted := formattedVolume_mounted p
  have haddr := formatted_addressable p hc
  rw [← hm.vol] at hmounted haddr
  rw [fatReadEntry_disk hmounted haddr, hm.vol]

/-- Consecutive clusters that are linked are a chain of the FAT, in front of the values that end
one. -/
theorem Chained.fatChain (hm : MountedAt p s) (h : Chained p s.dev first (n + 1))
    (hlt : first + n < 0xFFF8) :
    FatChain s (BitVec.ofNat 32 first) ((List.range' first (n + 1)).map (BitVec.ofNat 32)) := by
  induction n generalizing first with
  | zero =>
    have hread := (hm.readEntry (c := first) (by omega)).trans (h 0 (by omega))
    rw [chainLink, if_pos rfl] at hread
    apply FatChain.last
    rw [hread]
    decide
  | succ n ih =>
    have hread := (hm.readEntry (c := first) (by omega)).trans (h 0 (by omega))
    rw [chainLink, if_neg (by omega), Nat.add_zero] at hread
    have hnext : (BitVec.ofNat 16 (first + 1)).setWidth 32 = BitVec.ofNat 32 (first + 1) := by
      bv_omega
    have htail : Chained p s.dev (first + 1) (n + 1) := by
      intro i hi
      have hlink := h (i + 1) (by omega)
      rw [← Nat.add_assoc, Nat.add_right_comm] at hlink
      rw [hlink]
      unfold chainLink
      simp [Nat.add_assoc, Nat.add_comm 1]
    rw [List.range'_succ, List.map_cons]
    apply FatChain.link
    · rw [hread]
      bv_omega
    · rw [hread, hnext]
      exact ih htail (by omega)

/-- The clusters in use are counted by the first free one. -/
theorem FatUsed.allocated (h : FatUsed p d next) :
    allocatedClusters (formattedVolume p) d = next - 2 := by
  have hle := h.le
  have heq : (Finset.Ico 2 (formattedVolume p).clusters).filter
      (fun c => entryAt (formattedVolume p) d 0 c ≠ 0#16) = Finset.Ico 2 next := by
    ext c
    rw [formatted_clusters, Finset.mem_filter, Finset.mem_Ico, Finset.mem_Ico]
    constructor
    · rintro ⟨⟨htwo, hlt⟩, hne⟩
      have hfree := (h.free_iff c htwo hlt).not.mp hne
      omega
    · rintro ⟨htwo, hlt⟩
      exact ⟨by omega, (h.free_iff c htwo (by omega)).not.mpr (by omega)⟩
  rw [allocatedClusters, heq, Nat.card_Ico]

/-- What the made entry tells. -/
theorem Stores.fillDirent_entry (h : Stores p d next l) (ho : o ∈ l) : fillDirent o.entry =
    ⟨shownName 8 o.call.name, shownName 3 o.call.ext, o.call.attr, BitVec.ofNat 32 o.first,
      o.call.size⟩ := by
  have hfirst := h.first_lt ho
  rw [Made.entry, Call.entry_eq, fillDirent_setDirEntry]
  rw [BitVec.toNat_ofNat]
  exact (Nat.mod_le _ _).trans_lt hfirst

/-- A file needs as many clusters as `clustersFor` says. -/
theorem formatted_clustersNeeded (size : U32) :
    (formattedVolume p).clustersNeeded size.toNat = clustersFor size := by
  unfold Volume.clustersNeeded clustersFor
  rw [formatted_sectorsPerCluster]
  omega

/-- A call takes as many clusters as its entry says. -/
theorem Call.entryClusters_eq (call : Call) {name ext : List U8} {c : U32} :
    entryClusters (formattedVolume p) ⟨name, ext, call.attr, c, call.size⟩ = call.clusters := by
  have hfile : attrFile ≠ attrDirectory := by decide
  unfold entryClusters
  rw [formatted_clustersNeeded]
  cases call with
  | mkdirRoot name ext => exact if_pos rfl
  | createFileRoot name ext data size => exact if_neg hfile
  | createFileInDir dirCluster name ext data size => exact if_neg hfile

/-- What a call has made has its chain while the free clusters lie in front of the values that
end one. -/
theorem Stores.hasChain (h : Stores p s.dev next l) (hm : MountedAt p s) (hnext : next ≤ 0xFFF8)
    (ho : o ∈ l) : HasChain s (fillDirent o.entry) o.chain := by
  have hbounds := h.bounds o ho
  have hchained := h.chained o ho
  rw [h.fillDirent_entry ho]
  refine ⟨?_, ?_, fun c hc => ?_, ?_⟩
  · unfold EntryChain Made.chain
    cases hclusters : o.call.clusters with
    | zero => simp [h.empty o ho hclusters]
    | succ n =>
      rw [hclusters] at hbounds hchained
      have hbounds' := hbounds (by omega)
      rw [if_neg (by bv_omega)]
      exact hchained.fatChain hm (by omega)
  · apply List.Nodup.map_on _ List.nodup_range'
    intro a ha b hb heq
    rw [List.mem_range'_1] at ha hb
    have hbounds' := hbounds (by omega)
    bv_omega
  · obtain ⟨a, ha, rfl⟩ := List.mem_map.mp hc
    rw [List.mem_range'_1] at ha
    have hbounds' := hbounds (by omega)
    bv_omega
  · rw [hm.vol, Call.entryClusters_eq, Made.chain, List.length_map, List.length_range']

/-- The entries behind '.' and '..' are those of the calls. -/
theorem Stores.added_eq (h : Stores p d next l) (hdir : IsDir l dir) :
    dir.added (formattedVolume p) d = liveEntries dir l := by
  rw [Dir.added, h.entries_eq hdir, List.drop_left]

/-- Different entries have clusters apart from each other. -/
theorem Stores.apart_at (h : Stores p d next l) (hne : (dir, i) ≠ (dir', i'))
    (ho : (l.filter fun o => o.call.dir = dir ∧ o.call.live)[i]? = some o)
    (ho' : (l.filter fun o => o.call.dir = dir' ∧ o.call.live)[i']? = some o') :
    Disjoint o.clusters o'.clusters := by
  have hsymm : Std.Symm fun o o' : Made => Disjoint o.clusters o'.clusters := ⟨fun _ _ h => h.symm⟩
  by_cases hdir : dir = dir'
  · subst hdir
    have hne' : i ≠ i' := fun heq => hne (by rw [heq])
    have hpairs := h.apart.filter fun o => o.call.dir = dir ∧ o.call.live
    obtain ⟨hi, rfl⟩ := List.getElem?_eq_some_iff.mp ho
    obtain ⟨hi', rfl⟩ := List.getElem?_eq_some_iff.mp ho'
    rcases Nat.lt_or_gt_of_ne hne' with hlt | hgt
    · exact List.pairwise_iff_getElem.mp hpairs i i' hi hi' hlt
    · exact (List.pairwise_iff_getElem.mp hpairs i' i hi' hi hgt).symm
  · obtain ⟨hmem, hin⟩ := List.mem_filter.mp (List.mem_of_getElem? ho)
    obtain ⟨hmem', hin'⟩ := List.mem_filter.mp (List.mem_of_getElem? ho')
    apply h.apart.forall hmem hmem'
    rintro rfl
    exact hdir ((of_decide_eq_true hin).1.symm.trans (of_decide_eq_true hin').1)

/-- Clusters that are apart are the chains of files that are apart. -/
theorem Made.chain_disjoint (h : Disjoint o.clusters o'.clusters)
    (hlt : o.first + o.call.clusters ≤ 65536)
    (hlt' : o'.first + o'.call.clusters ≤ 65536) : o.chain.Disjoint o'.chain := by
  intro c hc hc'
  obtain ⟨a, ha, rfl⟩ := List.mem_map.mp hc
  obtain ⟨b, hb, heq⟩ := List.mem_map.mp hc'
  rw [List.mem_range'_1] at ha hb
  obtain rfl : b = a := by bv_omega
  exact Set.disjoint_left.mp h ha hb

/-- While no more clusters are in use than the partition has, all links are in front of the values
that end a chain. -/
theorem Stores.next_le (h : Stores p s.dev next l) (hm : MountedAt p s) (hsize : Admitted count)
    (hroom : allocatedClusters s.vol s.dev ≤ (clusterCount count).toNat) : next ≤ 0xFFF8 := by
  have hbound := hsize.2.2
  rw [hm.vol, h.used.allocated, toNat_clusterCount hsize] at hroom
  omega

/-- Each entry has its chain. For every state that calls on known directories reach on a fresh
volume, failed ones included, while no more clusters are in use than the partition has: a directory
is '.' and '..' and the entries behind them, and each of these has a chain of different data
clusters, one for a directory and as many as its data takes for a file. The chains of different
entries share no cluster, and the FAT copies are the same. -/
theorem chains_of_entries (hformat : fat16Format disk p count d = (true, sf.dev))
    (hmount : fat16Mount disk p sf = (true, s₀)) (hrun : CallRun OnKnown s₀ s log)
    (hroom : allocatedClusters s.vol s.dev ≤ (clusterCount count).toNat) :
    (∀ dir, Known log dir → dir.entries s.vol s.dev = dir.dots ++ dir.added s.vol s.dev ∧
      ∀ e ∈ dir.added s.vol s.dev, ∃ cs, HasChain s (fillDirent e) cs) ∧
    (∀ dir dir', Known log dir → Known log dir' → ChainsApart s dir dir') ∧
    SameCopies s.vol s.dev := by
  obtain ⟨hm₀, hs₀⟩ := stores_fresh hformat hmount
  obtain ⟨hm, next, l, hstores, hlog⟩ := hrun.stores (fun _ _ h => h) hm₀ hs₀
  have hnext := hstores.next_le hm (fat16Format_disk hformat).2 hroom
  have hend (o : Made) (ho : o ∈ l) : o.first + o.call.clusters ≤ 65536 := by
    have hfirst := hstores.first_lt ho
    have hbounds := hstores.bounds o ho
    omega
  unfold ChainsApart
  rw [hm.vol]
  refine ⟨fun dir hdir => ?_, fun dir dir' hdir hdir' i i' hne e e' he he' cs cs' hcs hcs' => ?_,
    hstores.used.copies⟩
  · rw [hstores.added_eq (hdir.isDir hlog), hstores.entries_eq (hdir.isDir hlog)]
    refine ⟨rfl, fun e he => ?_⟩
    obtain ⟨o, ho, rfl⟩ := List.mem_map.mp he
    exact ⟨o.chain, hstores.hasChain hm hnext (List.mem_filter.mp ho).1⟩
  · rw [hstores.added_eq (hdir.isDir hlog), liveEntries, List.getElem?_map,
      Option.map_eq_some_iff] at he
    rw [hstores.added_eq (hdir'.isDir hlog), liveEntries, List.getElem?_map,
      Option.map_eq_some_iff] at he'
    obtain ⟨o, ho, rfl⟩ := he
    obtain ⟨o', ho', rfl⟩ := he'
    have hmem := (List.mem_filter.mp (List.mem_of_getElem? ho)).1
    have hmem' := (List.mem_filter.mp (List.mem_of_getElem? ho')).1
    rw [hcs.unique (hstores.hasChain hm hnext hmem).chain,
      hcs'.unique (hstores.hasChain hm hnext hmem').chain]
    exact Made.chain_disjoint (hstores.apart_at hne ho ho') (hend o hmem) (hend o' hmem')

end

/-- A call that makes a file of two clusters in a directory. -/
def twoClustersIn (dirCluster : U32) : Call :=
  .createFileInDir dirCluster [0x42#8] [] (fun i => i.setWidth 8) 40000#32

/-- A directory and in it a file of two clusters are made on an empty volume. Both entries have
chains, which share no cluster. -/
theorem makeDir_chains : ∃ c s,
    CallRun OnKnown emptyMounted s [(makeDir, .directory c), (twoClustersIn c, .file)] ∧
      (Dir.root.added s.vol s.dev).length = 1 ∧ ((Dir.cluster c).added s.vol s.dev).length = 1 ∧
      (∀ e ∈ Dir.root.added s.vol s.dev, ∃ cs, HasChain s (fillDirent e) cs) ∧
      (∀ e ∈ (Dir.cluster c).added s.vol s.dev, ∃ cs, HasChain s (fillDirent e) cs) ∧
      ChainsApart s .root (.cluster c) := by
  obtain ⟨hm₀, hs₀⟩ := emptyMounted_stores
  obtain ⟨f, s₁, hr₁, hm₁, hs₁⟩ :=
    hs₀.succeeds hm₀ makeDir (.inl rfl) (by decide) (entries_lt (by simp))
  have hdir : IsDir ([] ++ [⟨makeDir, f⟩]) (.cluster (BitVec.ofNat 32 f)) :=
    .inr ⟨_, .head _, rfl, rfl⟩
  have hdirClusters : makeDir.clusters = 1 := rfl
  have hclusters : (twoClustersIn (BitVec.ofNat 32 f)).clusters = 2 := by
    simp [twoClustersIn, Call.clusters, clustersFor]
  obtain ⟨f₂, s, hr₂, hm, hs⟩ := hs₁.succeeds hm₁ (twoClustersIn (BitVec.ofNat 32 f)) hdir
    (by omega) (entries_lt (by simp))
  have hrun : CallRun OnKnown emptyMounted s _ :=
    .call (.call .start (.inl rfl) hr₁) (.inr ⟨_, _, .head _, rfl⟩) hr₂
  have hroom : allocatedClusters s.vol s.dev ≤ (clusterCount 297952#32).toNat := by
    rw [hm.vol, hs.used.allocated, hclusters]
    decide
  obtain ⟨hchains, hapart, -⟩ :=
    chains_of_entries emptyMounted_fresh.1 emptyMounted_fresh.2 hrun hroom
  have hknown :
      Known [(makeDir, .directory (BitVec.ofNat 32 f)),
        (twoClustersIn (BitVec.ofNat 32 f), .file)] (.cluster (BitVec.ofNat 32 f)) :=
    .inr ⟨_, _, .head _, rfl⟩
  refine ⟨_, s, hrun, ?_, ?_, (hchains .root (.inl rfl)).2, (hchains _ hknown).2,
    hapart _ _ (.inl rfl) hknown⟩
  · rw [hm.vol, hs.added_eq (.inl rfl)]
    simp [liveEntries, makeDir, twoClustersIn, Call.dir, Call.live, Call.name]
  · rw [hm.vol, hs.added_eq hdir.concat]
    simp [liveEntries, makeDir, twoClustersIn, Call.dir, Call.live, Call.name]

end AlderKernel.Fs
