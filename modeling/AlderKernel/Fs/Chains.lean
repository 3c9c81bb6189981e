import AlderKernel.Fs.FaultyDisk
import AlderKernel.Fs.Format

/-!
# Chains on a formatted volume

The allocator takes the first free cluster, and nothing gives a cluster back. On a formatted volume
the clusters in use are therefore the first ones, and the data of a file lies in consecutive
clusters, each of them linked to the next.
-/

namespace AlderKernel.Fs

open Machine

/-- The clusters in front of `next` are in use, the others are free, and the FAT copies agree. -/
structure FatUsed (p : U32) (d : Disk) (next : ℕ) : Prop where
  copies : SameCopies (formattedVolume p) d
  two_le : 2 ≤ next
  le : next ≤ 65536
  free_iff : ∀ c, 2 ≤ c → c < 65536 → (entryAt (formattedVolume p) d 0 c = 0#16 ↔ next ≤ c)

/-- The clusters from `m` on. -/
def clustersFrom (m : ℕ) : Set (Option ℕ) := {x | ∃ c, x = some c ∧ m ≤ c}

/-- The entry of the `i`-th of `count` clusters from `first` on, when they form a chain. -/
def chainLink (first count i : ℕ) : U16 :=
  if i + 1 = count then 0xFFFF#16 else BitVec.ofNat 16 (first + i + 1)

/-- The `count` clusters from `first` on form a chain in this order. -/
def Chained (p : U32) (d : Disk) (first count : ℕ) : Prop :=
  ∀ i < count, entryAt (formattedVolume p) d 0 (first + i) = chainLink first count i

/-- The number of clusters for the data of a file. -/
def clustersFor (size : U32) : ℕ := (size.toNat + 32767) / 32768

/-- Sector `k` of a file: the data from byte `512 * k` on, and zeros behind the end. -/
def dataSector (data : U32 → U8) (size : U32) (k : ℕ) : Sector := .ofFn fun b =>
  if 512 * k + b < size.toNat then data (BitVec.ofNat 32 (512 * k + b)) else 0#8

/-- Sector `s` of a cluster. -/
def sectorOf (p : U32) (d : Disk) (c s : ℕ) : Sector :=
  d ((formattedVolume p).lba ((formattedVolume p).clusterOffset c s))

/-- Cluster `i` of a file that starts at cluster `first` is linked and filled. -/
structure ClusterStored (p : U32) (d : Disk) (first : ℕ) (data : U32 → U8) (size : U32)
    (i : ℕ) : Prop where
  link : entryAt (formattedVolume p) d 0 (first + i) = chainLink first (clustersFor size) i
  sector : ∀ s < 64, sectorOf p d (first + i) s = dataSector data size (64 * i + s)

/-! ### What lies in front of a cluster -/

section

variable {p : U32} {d d' : Disk} {m c s k : ℕ}

/-- Changes behind a cluster leave its entry alone. -/
theorem ChangesOnly.entry_eq (h : ChangesOnly (formattedVolume p) (clustersFrom m) d d')
    (hc : c < m) (hm : m ≤ 65536) :
    entryAt (formattedVolume p) d' 0 c = entryAt (formattedVolume p) d 0 c := by
  apply h.entry 0 (by rw [formatted_numFats]; omega) c (formatted_addressable p (by omega))
  rintro ⟨c', heq, hle⟩
  obtain rfl := Option.some.inj heq
  omega

/-- Changes behind a cluster leave all sectors in front of the next cluster alone. -/
theorem ChangesOnly.lba_eq (h : ChangesOnly (formattedVolume p) (clustersFrom m) d d')
    (hk : 512 ≤ k) (hlt : k < 544 + (m - 2) * 64) (hm : m ≤ 65536) :
    d' ((formattedVolume p).lba k) = d ((formattedVolume p).lba k) := by
  apply h.sector k (by rwa [formatted_rootOffset]) (by omega)
  rintro x ⟨c', rfl, hle⟩ ⟨s', hs', rfl⟩
  rw [formatted_clusterOffset] at hlt
  omega

/-- A data sector of an earlier cluster is kept when later clusters change. -/
theorem ChangesOnly.sectorOf_eq (h : ChangesOnly (formattedVolume p) (clustersFrom m) d d')
    (hc2 : 2 ≤ c) (hc : c < m) (hm : m ≤ 65536) (hs : s < 64) :
    sectorOf p d' c s = sectorOf p d c s := by
  apply h.lba_eq
  · rw [formatted_clusterOffset]
    omega
  · rw [formatted_clusterOffset]
    omega
  · exact hm

/-- A chain is kept when later clusters change. -/
theorem Chained.of_changesOnly {first count : ℕ} (hchain : Chained p d first count)
    (h : ChangesOnly (formattedVolume p) (clustersFrom m) d d') (hle : first + count ≤ m)
    (hm : m ≤ 65536) : Chained p d' first count := by
  intro i hi
  rw [h.entry_eq (by omega) hm, hchain i hi]

/-- Stored data is kept when later clusters change. -/
theorem ClusterStored.of_changesOnly {first i : ℕ} {data : U32 → U8} {size : U32}
    (hstored : ClusterStored p d first data size i)
    (h : ChangesOnly (formattedVolume p) (clustersFrom m) d d') (hfirst : 2 ≤ first)
    (hlt : first + i < m) (hm : m ≤ 65536) : ClusterStored p d' first data size i := by
  constructor
  · rw [h.entry_eq hlt hm, hstored.link]
  · intro s hs
    rw [h.sectorOf_eq (by omega) hlt hm hs, hstored.sector s hs]

/-- Filling a cluster leaves the FAT alone. -/
theorem MountedVolume.sameFat_fillCluster {v : Volume} (h : MountedVolume v) (hc : v.Addressable c)
    (hc2 : 2 ≤ c) (f : ℕ → Sector) (d : Disk) : SameFat v d (fillCluster v c f d) := by
  intro k hk
  apply storeSectors_of_ne
  intro i hi
  rw [Nat.zero_add]
  exact (h.outsideFat_cluster hc hc2 i hi k hk).symm

/-- Writing an entry leaves the clusters alone. -/
theorem sectorOf_putEntry {value : U16} {c' i : ℕ} (hc : c < 65536) (hc' : c' < 65536)
    (hi : i < 64) :
    sectorOf p (putEntry (formattedVolume p) c value d) c' i = sectorOf p d c' i := by
  have haddr := formatted_addressable p hc
  unfold sectorOf
  rw [formatted_clusterOffset]
  apply putEntry_of_ne (formattedVolume_mounted p) haddr (by omega)
  intro j hj
  have hlt := (formattedVolume p).entryOffset_lt haddr hj
  rw [formatted_rootOffset] at hlt
  omega

/-! ### The clusters in use -/

namespace FatUsed

variable {next : ℕ}

/-- The FAT is empty after formatting. -/
theorem formatted {count : U32} : FatUsed p (formattedDisk p count d) 2 where
  two_le := le_refl 2
  le := by omega
  copies copy hcopy i hi := by
    rw [formatted_numFats] at hcopy
    rw [formatted_fatSizeSectors] at hi ⊢
    have hzero : formattedDisk p count d ((formattedVolume p).lba (0 * 256 + i)) = _ :=
      formattedDisk_fat (by omega) hi
    rw [Nat.zero_mul, Nat.zero_add] at hzero
    rw [formattedDisk_fat hcopy hi, hzero]
  free_iff c hc hc' := by simp [formattedDisk_entry (show 0 < 2 by omega) hc hc', hc]

/-- Which clusters are used depends on the FAT alone. -/
theorem sameFat (h : FatUsed p d next) (hsame : SameFat (formattedVolume p) d d') :
    FatUsed p d' next where
  two_le := h.two_le
  le := h.le
  copies copy hcopy i hi := by
    have hi' := hi
    have hcopy' := hcopy
    rw [formatted_numFats] at hcopy'
    have hlt : copy * (formattedVolume p).fatSizeSectors.toNat + i < 512 ∧ i < 512 := by
      rw [formatted_fatSizeSectors] at hi' ⊢
      omega
    rw [← formatted_rootOffset p] at hlt
    rw [hsame _ hlt.1, hsame _ hlt.2, h.copies copy hcopy i hi]
  free_iff c hc hc' := by
    have hfats : 0 < (formattedVolume p).numFats.toNat := by
      rw [formatted_numFats]
      omega
    rw [hsame.entryAt_eq hfats (formatted_addressable p hc'), h.free_iff c hc hc']

/-- An entry that is not zero, for the first free cluster or one in use. -/
theorem put (h : FatUsed p d next) (hle : c ≤ next) (hlt : c < 65536) {value : U16}
    (hvalue : value ≠ 0#16) :
    FatUsed p (putEntry (formattedVolume p) c value d) (max next (c + 1)) where
  two_le := h.two_le.trans (le_max_left _ _)
  le := max_le h.le hlt
  copies := putEntry_sameCopies (formattedVolume_mounted p) (formatted_addressable p hlt) h.copies
  free_iff c' hc2 hc' := by
    have hmounted := formattedVolume_mounted p
    have haddr := formatted_addressable p hlt
    have hfats : 0 < (formattedVolume p).numFats.toNat := by
      rw [formatted_numFats]
      omega
    by_cases heq : c' = c
    · rw [heq, entryAt_putEntry_self hmounted haddr hfats]
      simp [hvalue]
    · rw [entryAt_putEntry_of_ne hmounted haddr hfats (formatted_addressable p hc') heq,
        h.free_iff c' hc2 hc']
      omega

/-- The first free cluster is taken. -/
theorem take (h : FatUsed p d next) (hlt : next < 65536) :
    FatUsed p (putEntry (formattedVolume p) next 0xFFFF#16 d) (next + 1) := by
  have hput := h.put (le_refl next) hlt (show (0xFFFF#16 : U16) ≠ 0#16 by decide)
  rwa [max_eq_right (by omega)] at hput

/-- A cluster in use gets another entry. -/
theorem relink (h : FatUsed p d next) (hlt : c < next) {value : U16} (hvalue : value ≠ 0#16) :
    FatUsed p (putEntry (formattedVolume p) c value d) next := by
  have hle := h.le
  have hput := h.put hlt.le (by omega) hvalue
  rwa [max_eq_left hlt] at hput

/-- The clusters from the first unused one on are free. -/
theorem freeIn (h : FatUsed p d next) (hle : m ≤ next) :
    FreeIn (formattedVolume p) (clustersFrom m) d := by
  intro n hn haddr hzero
  have hlt := haddr.lt
  rw [formatted_clusters] at hlt
  exact ⟨n, rfl, hle.trans ((h.free_iff n hn hlt).mp hzero)⟩

/-- When all clusters are in use, there is no next one. -/
theorem eq_of_full (h : FatUsed p d next)
    (hused : InUse (formattedVolume p) d 2 (formattedVolume p).clusters) : next = 65536 := by
  have hle := h.le
  rw [formatted_clusters] at hused
  by_contra hne
  exact hused next h.two_le (by omega) ((h.free_iff next h.two_le (by omega)).mpr (le_refl next))

/-- The first free cluster is the next one. -/
theorem eq_of_first (h : FatUsed p d next) (hc : 2 ≤ c) (hlt : c < 65536)
    (hzero : entryAt (formattedVolume p) d 0 c = 0#16)
    (hused : InUse (formattedVolume p) d 2 c) : c = next := by
  have hle := (h.free_iff c hc hlt).mp hzero
  by_contra hne
  exact hused next h.two_le (by omega) ((h.free_iff next h.two_le (by omega)).mpr (le_refl next))

/-- `fat_alloc_cluster` takes the first cluster that is not in use, if there is one. -/
theorem alloc {s s' : Fat16 Disk} {r : U32} (h : FatUsed p s.dev next)
    (hvol : s.vol = formattedVolume p) (hr : fatAllocCluster disk s = (r, s')) :
    (r = 0#32 ∧ s' = s ∧ next = 65536) ∨
      (r = BitVec.ofNat 32 next ∧ next < 65536 ∧
        s' = { s with dev := putEntry (formattedVolume p) next 0xFFFF#16 s.dev }) := by
  have hmounted := formattedVolume_mounted p
  rw [← hvol] at hmounted
  have hbytes : s.vol.bytesPerSector.toNat ≤ 512 := by
    rw [hvol, formatted_bytesPerSector]
  rcases fatAllocCluster_cases hmounted (Or.inl hbytes) hr with
    ⟨rfl, rfl, hused⟩ | ⟨n, rfl, hn, haddr, hzero, hused, rfl⟩
  · rw [hvol] at hused
    exact Or.inl ⟨rfl, rfl, h.eq_of_full hused⟩
  · have hlt := haddr.lt
    rw [hvol] at hlt hzero hused ⊢
    rw [formatted_clusters] at hlt
    obtain rfl := h.eq_of_first hn hlt hzero hused
    exact Or.inr ⟨rfl, hlt, rfl⟩

end FatUsed

end

/-! ### Writing the data of a file -/

section

variable {p : U32} {data : U32 → U8} {size : U32} {first j next : ℕ} {d : Disk} {s s' : Fat16 Disk}

/-- What remains of a file behind its first `j` clusters. -/
def remainingAt (size : U32) (j : ℕ) : U32 := size - BitVec.ofNat 32 (32768 * j)

/-- The bytes that remain in front of cluster `j`. -/
theorem toNat_remainingAt (hj : 32768 * j < size.toNat) :
    (remainingAt size j).toNat = size.toNat - 32768 * j := by
  have hlt := size.isLt
  unfold remainingAt
  bv_omega

/-- The bytes that go to one cluster. -/
theorem toNat_thisChunk (r : U32) :
    (thisChunk (formattedVolume p) r).toNat = min r.toNat 32768 := by
  unfold thisChunk
  rw [formatted_bytesPerCluster]
  split_ifs <;> bv_omega

/-- What `write_file_data` puts in the sectors of a cluster are the sectors of the file. -/
theorem chunkSector_eq (hj : 32768 * j < size.toNat) {i : ℕ} (hi : i < 64) :
    chunkSector data (BitVec.ofNat 32 (32768 * j))
        (thisChunk (formattedVolume p) (remainingAt size j)) i =
      dataSector data size (64 * j + i) := by
  have hlt := size.isLt
  have hchunk := toNat_thisChunk (p := p) (remainingAt size j)
  rw [toNat_remainingAt hj] at hchunk
  generalize thisChunk (formattedVolume p) (remainingAt size j) = chunk at hchunk ⊢
  have hwritten : (BitVec.ofNat 32 (512 * i)).toNat = 512 * i := by
    rw [BitVec.toNat_ofNat, Nat.mod_eq_of_lt (by omega)]
  unfold chunkSector fileSector dataSector
  refine Buffer.ext fun b hb => ?_
  rw [Buffer.byte_ofFn hb]
  by_cases hin : BitVec.ofNat 32 (512 * i) < chunk
  · rw [if_pos hin, Buffer.byte_ofFn hb]
    rw [BitVec.lt_def, hwritten] at hin
    have hcopy : b < (if chunk - BitVec.ofNat 32 (512 * i) < 512#32 then
        chunk - BitVec.ofNat 32 (512 * i) else 512#32).toNat ↔
          512 * (64 * j + i) + b < size.toNat := by
      split_ifs <;> bv_omega
    have hindex : BitVec.ofNat 32 (32768 * j) + BitVec.ofNat 32 (512 * i) + BitVec.ofNat 32 b =
        BitVec.ofNat 32 (512 * (64 * j + i) + b) := by
      rw [← BitVec.ofNat_add, ← BitVec.ofNat_add]
      congr 1
      omega
    rw [hindex]
    exact if_congr hcopy rfl rfl
  · rw [if_neg hin, Buffer.byte_zero, if_neg]
    rw [BitVec.lt_def, hwritten] at hin
    omega

/-- A turn that does not end the file takes a whole cluster off what remains. -/
theorem remainingAt_succ (hj : 32768 * j < size.toNat)
    (hmore : remainingAt size j ≠ thisChunk (formattedVolume p) (remainingAt size j)) :
    32768 * (j + 1) < size.toNat ∧ thisChunk (formattedVolume p) (remainingAt size j) = 32768#32 ∧
      remainingAt size j - thisChunk (formattedVolume p) (remainingAt size j) =
        remainingAt size (j + 1) := by
  have hremaining := toNat_remainingAt hj
  have hchunk := toNat_thisChunk (p := p) (remainingAt size j)
  have hlt : 32768 * (j + 1) < size.toNat := by bv_omega
  have heq : thisChunk (formattedVolume p) (remainingAt size j) = 32768#32 := by bv_omega
  refine ⟨hlt, heq, ?_⟩
  have hnext := toNat_remainingAt hlt
  rw [heq]
  bv_omega

/-- The last turn takes the last cluster. -/
theorem clustersFor_of_last (hj : 32768 * j < size.toNat)
    (hlast : remainingAt size j = thisChunk (formattedVolume p) (remainingAt size j)) :
    clustersFor size = j + 1 := by
  have hremaining := toNat_remainingAt hj
  have hchunk := toNat_thisChunk (p := p) (remainingAt size j)
  rw [← hlast] at hchunk
  unfold clustersFor
  omega

/-- `write_file_data` fills and links the clusters behind the last one in use, or it runs out of
free clusters. -/
theorem writeClusters_spec {turns : ℕ} {ok : Bool} (hvol : s.vol = formattedVolume p)
    (hfirst : 2 ≤ first) (hj : 32768 * j < size.toNat)
    (hused : FatUsed p s.dev (first + j + 1))
    (hr : writeClusters disk data turns (BitVec.ofNat 32 (first + j)) (BitVec.ofNat 32 (32768 * j))
      (remainingAt size j) s = some (ok, s')) :
    (ok = true ∧ FatUsed p s'.dev (first + clustersFor size) ∧
      ∀ i, j ≤ i → i < clustersFor size → ClusterStored p s'.dev first data size i) ∨
    (ok = false ∧ FatUsed p s'.dev 65536 ∧ 65536 < first + clustersFor size) := by
  have hmounted := formattedVolume_mounted p
  have hbytes : (formattedVolume p).bytesPerSector.toNat ≤ 512 := by rw [formatted_bytesPerSector]
  have hfats : 0 < (formattedVolume p).numFats.toNat := by
    rw [formatted_numFats]
    omega
  induction turns generalizing j s with
  | zero => exact absurd hr (by simp [writeClusters])
  | succ turns ih =>
    have hle := hused.le
    have haddr := formatted_addressable p (show first + j < 65536 by omega)
    have hcases :=
      writeClusters_cases (by rwa [hvol]) (by rwa [hvol]) (by rw [hvol]; exact .inl hbytes)
      rfl hr
    rw [hvol] at hcases
    have hfill (i : ℕ) (hi : i < 64) : sectorOf p (fillCluster (formattedVolume p) (first + j)
        (chunkSector data (BitVec.ofNat 32 (32768 * j))
          (thisChunk (formattedVolume p) (remainingAt size j))) s.dev) (first + j) i =
        dataSector data size (64 * j + i) := by
      rw [sectorOf, fillCluster_sector hmounted (by omega) hi, chunkSector_eq hj hi]
    have hused₁ : FatUsed p _ _ := hused.sameFat (hmounted.sameFat_fillCluster haddr (by omega)
      (chunkSector data (BitVec.ofNat 32 (32768 * j))
        (thisChunk (formattedVolume p) (remainingAt size j))) s.dev)
    generalize fillCluster (formattedVolume p) (first + j) _ s.dev = d₁ at hcases hfill hused₁
    rcases hcases with ⟨hlast, rfl, rfl⟩ | ⟨hmore, rfl, rfl, hfull⟩ |
      ⟨hmore, n, hn, hnaddr, hzero, hfirstFree, hrest⟩
    · -- The last turn: the chain ends at this cluster.
      have hcount := clustersFor_of_last hj hlast
      have hput :=
        hused₁.relink (Nat.lt_succ_self (first + j)) (show (0xFFFF#16 : U16) ≠ 0#16 by decide)
      refine Or.inl ⟨rfl, by rwa [hcount, ← Nat.add_assoc], fun i hi hi' => ?_⟩
      obtain rfl : i = j := by omega
      refine ⟨?_, fun k hk => ?_⟩
      · rw [entryAt_putEntry_self hmounted haddr hfats, chainLink, if_pos hcount.symm]
      · rw [sectorOf_putEntry (by omega) (by omega) hk, hfill k hk]
    · obtain ⟨hlt, -⟩ := remainingAt_succ hj hmore
      have hend := hused₁.eq_of_full hfull
      refine Or.inr ⟨rfl, hend ▸ hused₁, ?_⟩
      unfold clustersFor
      omega
    · -- The file goes on in the next cluster, and nothing behind it touches this one.
      obtain ⟨hlt, hchunk, hnext⟩ := remainingAt_succ hj hmore
      have hn' := hnaddr.lt
      rw [formatted_clusters] at hn'
      obtain rfl : n = first + j + 1 := hused₁.eq_of_first hn hn' hzero hfirstFree
      have hlink : BitVec.ofNat 16 (first + j + 1) ≠ 0#16 := by
        intro heq
        have heq' := congrArg BitVec.toNat heq
        rw [BitVec.toNat_ofNat, BitVec.toNat_ofNat] at heq'
        omega
      have hused₂ := (hused₁.take hn').relink (show first + j < first + j + 1 + 1 by omega) hlink
      have hself : entryAt (formattedVolume p) (putEntry (formattedVolume p) (first + j)
          (BitVec.ofNat 16 (first + j + 1))
          (putEntry (formattedVolume p) (first + j + 1) 0xFFFF#16 d₁))
          0 (first + j) = BitVec.ofNat 16 (first + j + 1) :=
        entryAt_putEntry_self hmounted haddr hfats
      have hkeep (i : ℕ) (hi : i < 64) : sectorOf p (putEntry (formattedVolume p) (first + j)
          (BitVec.ofNat 16 (first + j + 1))
          (putEntry (formattedVolume p) (first + j + 1) 0xFFFF#16 d₁))
          (first + j) i = sectorOf p d₁ (first + j) i := by
        rw [sectorOf_putEntry (by omega) (by omega) hi, sectorOf_putEntry hn' (by omega) hi]
      rw [hnext, hchunk, ← BitVec.ofNat_add] at hrest
      generalize putEntry (formattedVolume p) (first + j) _ _ = d₂ at hused₂ hself hkeep hrest
      have hframe : ChangesOnly (formattedVolume p) (clustersFrom (first + j + 1)) d₂ s'.dev :=
        writeClusters_changesOnly (s := ⟨formattedVolume p, s.mounted, d₂, s.overrun⟩) hmounted
          hfats hn
          hnaddr ⟨_, rfl, le_refl _⟩ (hused₂.freeIn (by omega)) (.inl hbytes) hrest
      have hhere : ClusterStored p d₂ first data size j := by
        refine ⟨?_, fun k hk => ?_⟩
        · rw [hself, chainLink, if_neg]
          unfold clustersFor
          omega
        · rw [hkeep k hk, hfill k hk]
      refine (ih (j := j + 1) (s := ⟨formattedVolume p, s.mounted, d₂, s.overrun⟩) rfl hlt hused₂
        hrest).imp_left ?_
      rintro ⟨hok, hend, hstored⟩
      refine ⟨hok, hend, fun i hi hi' => ?_⟩
      rcases Nat.eq_or_lt_of_le hi with rfl | hgt
      · exact hhere.of_changesOnly hframe hfirst (by omega) (by omega)
      · exact hstored i hgt hi'

end

end AlderKernel.Fs
