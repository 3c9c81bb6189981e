import AlderKernel.Fs.FaultyDisk
import AlderKernel.Fs.Accesses
import AlderKernel.Fs.Format

/-!
# Reading a file

`fat16_read_file` follows the chain of a file and copies cluster after cluster to the buffer. What
it visits is all of the file exactly when the links that it reads are those of the FAT and the chain
is long enough.
-/

namespace AlderKernel.Fs

open Machine

/-- Reads leave the content of the device alone, and a read that succeeds gives it. -/
structure ReadsContent {σ : Type} (a : Ata σ) (content : σ → Disk) : Prop where
  kept : ∀ lba d, content (a.readSector lba d).2 = content d
  sector : ∀ lba d, (a.readSector lba d).1.1 = true → (a.readSector lba d).1.2 = content d lba

/-- Byte `k` of a cluster. -/
def clusterByte (v : Volume) (d : Disk) (cluster : U32) (k : ℕ) : U8 :=
  (d (clusterToLba v cluster + BitVec.ofNat 32 (k / 512))).byte (k % 512)

/-- The clusters that the loop of `fat16_read_file` visits. -/
def visitedClusters {σ : Type} (a : Ata σ) (bufferSize : U32) :
    ℕ → U32 → U32 → U32 → (U32 → U8) → Fat16 σ → List U32
  | 0, _, _, _, _, _ => []
  | turns + 1, cluster, offset, remaining, buffer, s =>
    if 0#32 < remaining then
      let base := clusterToLba s.vol cluster
      let chunk := thisChunk s.vol remaining
      let r := readClusterData a base offset chunk bufferSize
        s.vol.sectorsPerCluster.toNat 0#32 0#32
        buffer s.dev
      let s := { s with dev := r.2 }
      if ¬ r.1.1 then [cluster] else
      if remaining - chunk = 0#32 then [cluster] else
      let next := fatReadEntry a cluster s
      if 0xFFF8#16 ≤ next.1 then [cluster] else
      cluster :: visitedClusters a bufferSize turns (next.1.setWidth 32) (offset + chunk)
        (remaining - chunk) r.1.2 next.2
    else []

/-- The clusters that `fat16_read_file` visits. -/
def readFileVisits {σ : Type} (a : Ata σ) (firstCluster size : U32) (buffer : U32 → U8)
    (bufferSize : U32) (s : Fat16 σ) : List U32 :=
  if ¬ s.mounted then [] else
  if size = 0#32 ∨ firstCluster = 0#32 then [] else
  visitedClusters a bufferSize (2 ^ 32) firstCluster 0#32 size buffer s

/-- The entry of a cluster, in the FAT sector that it lies in. -/
def entryIn (v : Volume) (sector : Sector) (cluster : U32) : U16 :=
  (word16 sector (offsetInSector v cluster).toNat).setWidth 16

/-- The address of that sector. -/
def entryLba (v : Volume) (cluster : U32) : U32 := v.fatStart + sectorIndex v cluster

/-- The cluster behind another one in the chains of the FAT. -/
def linkOf (v : Volume) (d : Disk) (cluster : U32) : U32 :=
  (entryIn v (d (entryLba v cluster)) cluster).setWidth 32

/-- How many clusters a file of so many bytes takes. -/
def Volume.clustersNeeded (v : Volume) (size : ℕ) : ℕ :=
  (size + 512 * v.sectorsPerCluster.toNat - 1) / (512 * v.sectorsPerCluster.toNat)

/-- The clusters are a chain of data clusters that is long enough for a file, and its bytes are in
the buffer. -/
structure WholeFile (v : Volume) (d : Disk) (size : ℕ) (cs : List U32) (buffer : U32 → U8) :
    Prop where
  length : cs.length = v.clustersNeeded size
  chain : cs.IsChain fun c c' => c' = linkOf v d c
  valid : ∀ c ∈ cs, 2 ≤ c.toNat ∧ c.toNat < 0xFFF0
  bytes : ∀ i : U32, i.toNat < size → buffer i =
    clusterByte v d (cs.getD (i.toNat / (512 * v.sectorsPerCluster.toNat)) 0#32)
      (i.toNat % (512 * v.sectorsPerCluster.toNat))

/-- The entry that transfer `n` of a call finds in the buffer. -/
def seenEntry (f : Faults) (v : Volume) (d : Disk) (n : ℕ) (cluster : U32) : U16 :=
  entryIn v ((f.read n (entryLba v cluster)).getD (d (entryLba v cluster))) cluster

/-- The first `n` clusters of the chain from a cluster on are data clusters, and the entries of all
of them but the last are read: the transfers with the numbers of these reads do not fail, or leave
the two bytes of the entry in the buffer. -/
def ChainReadable (f : Faults) (v : Volume) (d : Disk) (first : U32) (n : ℕ) : Prop :=
  ∀ i < n, (2 ≤ ((linkOf v d)^[i] first).toNat ∧ ((linkOf v d)^[i] first).toNat < 0xFFF0) ∧
    (i + 1 < n → (seenEntry f v d (i * (v.sectorsPerCluster.toNat + 1) + v.sectorsPerCluster.toNat)
      ((linkOf v d)^[i] first)).setWidth 32 = (linkOf v d)^[i + 1] first)

/-- Follow entries, the `j`-th one first, until there are enough clusters or an entry ends the
chain. -/
def walk (next : ℕ → U32 → U16) : ℕ → ℕ → U32 → List U32
  | 0, _, _ => []
  | n + 1, j, c =>
    if n = 0 ∨ 0xFFF8#16 ≤ next j c then [c]
    else c :: walk next n (j + 1) ((next j c).setWidth 32)

/-- The states in front of the clusters of a file and the entries that are read: when a whole
cluster could be read in front of cluster `j`, the entry behind it is read, and the device stands in
front of cluster `j + 1`. -/
def ReadsEntries {σ : Type} (a : Ata σ) (v : Volume) (next : ℕ → U32 → U16) (Front : ℕ → σ → Prop) :
    Prop :=
  ∀ j d base offset chunk bufferSize buffer data, Front j d →
    chunk.toNat = 512 * v.sectorsPerCluster.toNat →
    readClusterData a base offset chunk bufferSize v.sectorsPerCluster.toNat 0#32 0#32 buffer d =
      data →
    data.1.1 = true → ∀ cluster mounted overrun,
      (fatReadEntry a cluster ⟨v, mounted, data.2, overrun⟩).1 = next j cluster ∧
        Front (j + 1) (fatReadEntry a cluster ⟨v, mounted, data.2, overrun⟩).2.dev

/-- A disk without failures gives the contents of its sectors. -/
theorem disk_readsContent : ReadsContent disk id := ⟨fun _ _ => rfl, fun _ _ _ => rfl⟩

/-- A read that succeeds gives the contents of the sector. -/
theorem faultyDisk_readsContent (f : Faults) : ReadsContent (faultyDisk f) Prod.fst := by
  constructor
  · intro lba d
    rfl
  · intro lba d
    unfold faultyDisk
    cases hf : f.read d.2 lba with
    | none => simp [hf]
    | some left => simp [hf]

section

variable {σ : Type} {a : Ata σ} {content : σ → Disk} {base offset chunk bufferSize remaining : U32}
  {buffer : U32 → U8} {turns : ℕ} {d : σ} {v : Volume} {s : Fat16 σ} {cluster : U32}

/-- One copy loop, in terms of the indices of the buffer. -/
theorem copyToBuffer_eq {sector : Sector} {dest copyLen : U32} (i : U32)
    (hfits : dest.toNat + copyLen.toNat ≤ bufferSize.toNat) :
    copyToBuffer sector dest copyLen bufferSize buffer i =
      if dest.toNat ≤ i.toNat ∧ i.toNat < dest.toNat + copyLen.toNat
        then sector.byte (i.toNat - dest.toNat) else buffer i := by
  have hiff : (i - dest < copyLen ∧ i < bufferSize) ↔
      dest.toNat ≤ i.toNat ∧ i.toNat < dest.toNat + copyLen.toNat := by
    bv_omega
  unfold copyToBuffer
  by_cases hin : dest.toNat ≤ i.toNat ∧ i.toNat < dest.toNat + copyLen.toNat
  · rw [if_pos hin, if_pos (hiff.mpr hin)]
    congr 1
    bv_omega
  · rw [if_neg hin, if_neg (hiff.not.mpr hin)]

/-- One turn of the loop over the sectors of a cluster. -/
theorem readClusterData_succ (k : ℕ) :
    readClusterData a base offset chunk bufferSize (turns + 1) (BitVec.ofNat 32 k)
        (BitVec.ofNat 32 (512 * k)) buffer d =
      if BitVec.ofNat 32 (512 * k) < chunk then
        let r := a.readSector (base + BitVec.ofNat 32 k) d
        if ¬ r.1.1 then ((false, buffer), r.2) else
        readClusterData a base offset chunk bufferSize turns (BitVec.ofNat 32 (k + 1))
          (BitVec.ofNat 32 (512 * (k + 1)))
          (copyToBuffer r.1.2 (offset + BitVec.ofNat 32 (512 * k))
            (copyLen chunk (BitVec.ofNat 32 (512 * k))) bufferSize buffer) r.2
      else ((true, buffer), d) := by
  rw [readClusterData, Nat.mul_add, BitVec.ofNat_add, BitVec.ofNat_add]
  rfl

/-- Reading the sectors of a cluster leaves the content of the device alone. -/
theorem readClusterData_kept (h : ReadsContent a content) {k finished : U32} :
    content (readClusterData a base offset chunk bufferSize turns k finished buffer d).2 =
      content d := by
  induction turns generalizing k finished buffer d with
  | zero => rfl
  | succ turns ih =>
    unfold readClusterData
    dsimp only
    by_cases hmore : finished < chunk
    · rw [if_pos hmore]
      by_cases hread : (a.readSector (base + k) d).1.1 = true
      · rw [if_neg (not_not_intro hread), ih, h.kept]
      · rw [if_pos hread, h.kept]
    · rw [if_neg hmore]

/-- The bytes of a cluster that the loop over its sectors puts in the buffer. -/
theorem readClusterData_content (h : ReadsContent a content) {k : ℕ} (hk : k + turns ≤ 255)
    (hchunk : chunk.toNat ≤ 512 * (k + turns))
    (hfits : offset.toNat + chunk.toNat ≤ bufferSize.toNat)
    (hok : (readClusterData a base offset chunk bufferSize turns (BitVec.ofNat 32 k)
      (BitVec.ofNat 32 (512 * k)) buffer d).1.1 = true) :
    let r := readClusterData a base offset chunk bufferSize turns (BitVec.ofNat 32 k)
      (BitVec.ofNat 32 (512 * k)) buffer d
    content r.2 = content d ∧ ∀ i : U32, r.1.2 i =
      if offset.toNat + 512 * k ≤ i.toNat ∧ i.toNat < offset.toNat + chunk.toNat
        then (content d (base + BitVec.ofNat 32 ((i.toNat - offset.toNat) / 512))).byte
          ((i.toNat - offset.toNat) % 512)
        else buffer i := by
  induction turns generalizing k buffer d with
  | zero =>
    refine ⟨rfl, fun i => ?_⟩
    rw [if_neg (by omega)]
    rfl
  | succ turns ih =>
    rw [readClusterData_succ] at hok ⊢
    by_cases hmore : BitVec.ofNat 32 (512 * k) < chunk
    · rw [if_pos hmore] at hok ⊢
      dsimp only at hok ⊢
      by_cases hread : (a.readSector (base + BitVec.ofNat 32 k) d).1.1 = true
      · rw [if_neg (not_not_intro hread)] at hok ⊢
        obtain ⟨hcontent, hbytes⟩ := ih (by omega) (by omega) hok
        rw [h.kept] at hcontent hbytes
        refine ⟨hcontent, fun i => ?_⟩
        have hlen : (copyLen chunk (BitVec.ofNat 32 (512 * k))).toNat =
            min (chunk.toNat - 512 * k) 512 := by
          unfold copyLen
          split_ifs <;> bv_omega
        have hdest : (offset + BitVec.ofNat 32 (512 * k)).toNat = offset.toNat + 512 * k := by
          bv_omega
        have hlt : 512 * k < chunk.toNat := by bv_omega
        rw [hbytes, copyToBuffer_eq i (by rw [hdest, hlen]; omega), h.sector _ _ hread, hlen, hdest]
        by_cases hlater : offset.toNat + 512 * (k + 1) ≤ i.toNat ∧
          i.toNat < offset.toNat + chunk.toNat
        · rw [if_pos hlater, if_pos (by omega)]
        · rw [if_neg hlater]
          by_cases hnow : offset.toNat + 512 * k ≤ i.toNat ∧ i.toNat < offset.toNat + chunk.toNat
          · rw [if_pos (by omega), if_pos hnow]
            rw [show (i.toNat - offset.toNat) / 512 = k by omega,
              show (i.toNat - offset.toNat) % 512 = i.toNat - (offset.toNat + 512 * k) by omega]
          · rw [if_neg (by omega), if_neg hnow]
      · rw [if_pos hread] at hok
        exact Bool.noConfusion hok
    · rw [if_neg hmore]
      refine ⟨rfl, fun i => ?_⟩
      rw [if_neg]
      bv_omega

/-- Where all reads succeed the sectors of a cluster are read. -/
theorem readClusterData_succeeds (h : ∀ lba d, (a.readSector lba d).1.1 = true) {k finished : U32} :
    (readClusterData a base offset chunk bufferSize turns k finished buffer d).1.1 = true := by
  induction turns generalizing k finished buffer d with
  | zero => rfl
  | succ turns ih =>
    unfold readClusterData
    dsimp only
    by_cases hmore : finished < chunk
    · rw [if_pos hmore, if_neg (not_not_intro (h _ _))]
      exact ih
    · rw [if_neg hmore]

/-- There `fat16_read_file` returns 1. -/
theorem readClusters_succeeds (h : ∀ lba d, (a.readSector lba d).1.1 = true)
    {r : (Bool × (U32 → U8)) × Fat16 σ}
    (hr : readClusters a bufferSize turns cluster offset remaining buffer s = some r) :
    r.1.1 = true := by
  induction turns generalizing cluster offset remaining buffer s with
  | zero => simp [readClusters] at hr
  | succ turns ih =>
    unfold readClusters at hr
    dsimp only at hr
    split_ifs at hr with hmore hread hlast hend
    · obtain rfl := Option.some.inj hr
      exact readClusterData_succeeds h
    · obtain rfl := Option.some.inj hr
      exact readClusterData_succeeds h
    · exact ih hr
    · exact absurd (readClusterData_succeeds h) hread
    · obtain rfl := Option.some.inj hr
      rfl

/-- The bytes of a cluster of a volume with sectors of 512 bytes. -/
theorem toNat_thisChunk_of_512 (remaining : U32) (hv : MountedVolume v)
    (hb : v.bytesPerSector = 512#32) :
    (thisChunk v remaining).toNat = min remaining.toNat (512 * v.sectorsPerCluster.toNat) := by
  have hspc := hv.sectorsPerCluster_lt
  unfold thisChunk bytesPerCluster
  rw [hb]
  split_ifs <;> bv_omega

/-- What the loop over the sectors of a cluster puts in the buffer. -/
theorem clusterData_content (h : ReadsContent a content) (hv : MountedVolume v)
    (hchunk : chunk.toNat ≤ 512 * v.sectorsPerCluster.toNat)
    (hfits : offset.toNat + chunk.toNat ≤ bufferSize.toNat) {data : (Bool × (U32 → U8)) × σ}
    (hdata : readClusterData a (clusterToLba v cluster) offset chunk bufferSize
      v.sectorsPerCluster.toNat 0#32 0#32 buffer d = data) (hok : data.1.1 = true) :
    content data.2 = content d ∧ ∀ i : U32, data.1.2 i =
      if offset.toNat ≤ i.toNat ∧ i.toNat < offset.toNat + chunk.toNat
        then clusterByte v (content d) cluster (i.toNat - offset.toNat) else buffer i := by
  subst hdata
  have hspc := hv.sectorsPerCluster_lt
  have hspec := readClusterData_content (k := 0) h (by omega) (by omega) hfits hok
  rw [Nat.mul_zero, Nat.add_zero] at hspec
  exact hspec

/-- The bytes of a single cluster. -/
theorem chainByte_singleton {size off rem j : ℕ} (byte : U32 → ℕ → U8) (c : U32) (other : U8) :
    (if off ≤ j ∧ j < off + min rem (size * [c].length) then
      byte ([c].getD ((j - off) / size) 0#32) ((j - off) % size) else other) =
      if off ≤ j ∧ j < off + min rem size then byte c (j - off) else other := by
  rw [List.length_singleton, Nat.mul_one]
  by_cases hin : off ≤ j ∧ j < off + min rem size
  · have hlt : j - off < size := by omega
    rw [if_pos hin, if_pos hin, Nat.div_eq_of_lt hlt, Nat.mod_eq_of_lt hlt]
    rfl
  · rw [if_neg hin, if_neg hin]

/-- The bytes of a chain are those of its first cluster, and behind them those of the others. -/
theorem chainByte_cons {size off rem j : ℕ} (hsize : 0 < size) (hrem : size ≤ rem)
    (byte : U32 → ℕ → U8) (c : U32) (cs : List U32) (other : U8) :
    (if off ≤ j ∧ j < off + min rem (size * (c :: cs).length) then
      byte ((c :: cs).getD ((j - off) / size) 0#32) ((j - off) % size) else other) =
      if off + size ≤ j ∧ j < off + size + min (rem - size) (size * cs.length) then
        byte (cs.getD ((j - (off + size)) / size) 0#32) ((j - (off + size)) % size)
      else if off ≤ j ∧ j < off + size then byte c (j - off) else other := by
  rw [List.length_cons, Nat.mul_succ]
  by_cases hlater : off + size ≤ j ∧ j < off + size + min (rem - size) (size * cs.length)
  · have hsplit : j - off = j - (off + size) + size := by omega
    rw [if_pos hlater, if_pos (by omega), hsplit, Nat.add_div_right _ hsize, Nat.add_mod_right]
    rfl
  · rw [if_neg hlater]
    by_cases hnow : off ≤ j ∧ j < off + size
    · have hlt : j - off < size := by omega
      rw [if_pos hnow, if_pos (by omega), Nat.div_eq_of_lt hlt, Nat.mod_eq_of_lt hlt]
      rfl
    · rw [if_neg hnow, if_neg (by omega)]

/-- When `fat16_read_file` returns 1, the bytes of the buffer are those of the clusters that it
has visited. -/
theorem readClusters_content (h : ReadsContent a content) (hv : MountedVolume s.vol)
    (hb : s.vol.bytesPerSector = 512#32)
    (hfits : offset.toNat + remaining.toNat ≤ bufferSize.toNat) {r : (Bool × (U32 → U8)) × Fat16 σ}
    (hr : readClusters a bufferSize turns cluster offset remaining buffer s = some r)
    (hok : r.1.1 = true) (i : U32) :
    let cs := visitedClusters a bufferSize turns cluster offset remaining buffer s
    let size := 512 * s.vol.sectorsPerCluster.toNat
    r.1.2 i = if offset.toNat ≤ i.toNat ∧
        i.toNat < offset.toNat + min remaining.toNat (size * cs.length)
      then clusterByte s.vol (content s.dev) (cs.getD ((i.toNat - offset.toNat) / size) 0#32)
        ((i.toNat - offset.toNat) % size)
      else buffer i := by
  induction turns generalizing cluster offset remaining buffer s with
  | zero => simp [readClusters] at hr
  | succ turns ih =>
    have hspc := hv.sectorsPerCluster_lt
    have hpos := hv.sectorsPerCluster_pos
    have hchunk := toNat_thisChunk_of_512 remaining hv hb
    unfold readClusters at hr
    unfold visitedClusters
    dsimp only at hr ⊢
    generalize hdata : readClusterData a (clusterToLba s.vol cluster) offset
      (thisChunk s.vol remaining) bufferSize s.vol.sectorsPerCluster.toNat 0#32 0#32 buffer s.dev =
        data at hr ⊢
    have hspec := clusterData_content h hv (by omega) (by omega) hdata
    generalize hnext : fatReadEntry a cluster { s with dev := data.2 } = next at hr ⊢
    have hnextVol : next.2.vol = s.vol := by rw [← hnext]; rfl
    have hnextDev : content next.2.dev = content data.2 := by rw [← hnext]; exact h.kept _ _
    by_cases hmore : 0#32 < remaining
    · rw [if_pos hmore] at hr ⊢
      by_cases hread : data.1.1 = true
      · obtain ⟨hcontent, hbytes⟩ := hspec hread
        rw [if_neg (not_not_intro hread)] at hr ⊢
        generalize hsize : 512 * s.vol.sectorsPerCluster.toNat = size at *
        have hone : data.1.2 i = if offset.toNat ≤ i.toNat ∧
            i.toNat < offset.toNat + min remaining.toNat (size * [cluster].length)
          then clusterByte s.vol (content s.dev)
            ([cluster].getD ((i.toNat - offset.toNat) / size) 0#32)
            ((i.toNat - offset.toNat) % size)
          else buffer i := by
          rw [hbytes, hchunk, chainByte_singleton (clusterByte s.vol (content s.dev))]
        by_cases hlast : remaining - thisChunk s.vol remaining = 0#32
        · rw [if_pos hlast] at hr ⊢
          obtain rfl := Option.some.inj hr
          exact hone
        · rw [if_neg hlast] at hr ⊢
          by_cases hend : 0xFFF8#16 ≤ next.1
          · rw [if_pos hend] at hr ⊢
            obtain rfl := Option.some.inj hr
            exact hone
          · rw [if_neg hend] at hr ⊢
            have hrest := ih (hnextVol ▸ hv) (hnextVol ▸ hb) (by bv_omega) hr
            rw [hnextVol, hnextDev, hcontent, hsize] at hrest
            generalize visitedClusters a bufferSize turns (next.1.setWidth 32)
              (offset + thisChunk s.vol remaining) (remaining - thisChunk s.vol remaining) data.1.2
              next.2 = cs at hrest ⊢
            have hfull : (thisChunk s.vol remaining).toNat = size := by bv_omega
            have hoffset : (offset + thisChunk s.vol remaining).toNat = offset.toNat + size := by
              bv_omega
            have hremaining : (remaining - thisChunk s.vol remaining).toNat =
                remaining.toNat - size := by bv_omega
            rw [hoffset, hremaining, hbytes, hfull] at hrest
            rw [hrest, chainByte_cons (by omega) (by bv_omega) (clusterByte s.vol (content s.dev))]
      · rw [if_pos hread] at hr
        obtain rfl := Option.some.inj hr
        exact absurd hok hread
    · rw [if_neg hmore] at hr ⊢
      obtain rfl := Option.some.inj hr
      simp

end

section

variable {v : Volume} {d : Disk} {f : Faults} {next : ℕ → U32 → U16} {link : U32 → U32}
  {base offset chunk bufferSize remaining first size cluster : U32} {buffer : U32 → U8}
  {turns t : ℕ} {s : Fat16 (Disk × ℕ)}

/-- The walk starts with its first cluster. -/
theorem walk_head {n j : ℕ} {c : U32} : (walk next (n + 1) j c).head? = some c := by
  unfold walk
  split_ifs <;> rfl

/-- A walk is a chain of data clusters exactly when the entries on the way are the links and all of
these are data clusters. -/
theorem walk_chain_iff (next : ℕ → U32 → U16) (link : U32 → U32) (j : ℕ) (c : U32) {n : ℕ}
    (hn : 0 < n) :
    ((walk next n j c).length = n ∧ (walk next n j c).IsChain (fun c c' => c' = link c) ∧
        ∀ x ∈ walk next n j c, 2 ≤ x.toNat ∧ x.toNat < 0xFFF0) ↔
      ∀ i < n, (2 ≤ (link^[i] c).toNat ∧ (link^[i] c).toNat < 0xFFF0) ∧
        (i + 1 < n → (next (j + i) (link^[i] c)).setWidth 32 = link^[i + 1] c) := by
  induction n generalizing j c with
  | zero => omega
  | succ n ih =>
    cases n with
    | zero => simp [walk]
    | succ n =>
      have hfirst : (∀ i < n + 1 + 1, (2 ≤ (link^[i] c).toNat ∧ (link^[i] c).toNat < 0xFFF0) ∧
          (i + 1 < n + 1 + 1 → (next (j + i) (link^[i] c)).setWidth 32 = link^[i + 1] c)) ↔
          ((2 ≤ c.toNat ∧ c.toNat < 0xFFF0) ∧ (next j c).setWidth 32 = link c) ∧
            ∀ i < n + 1, (2 ≤ (link^[i] (link c)).toNat ∧ (link^[i] (link c)).toNat < 0xFFF0) ∧
              (i + 1 < n + 1 → (next (j + 1 + i) (link^[i] (link c))).setWidth 32 =
                link^[i + 1] (link c)) := by
        rw [Nat.forall_lt_succ_left]
        simp [Nat.add_assoc, Nat.add_comm 1]
      rw [hfirst]
      by_cases hend : 0xFFF8#16 ≤ next j c
      · have hwalk : walk next (n + 1 + 1) j c = [c] := by rw [walk, if_pos (.inr hend)]
        refine iff_of_false (fun h => ?_) (fun h => ?_)
        · rw [hwalk] at h
          simp at h
        · have hvalid := (h.2 0 (by omega)).1.2
          rw [Function.iterate_zero_apply, ← h.1.2] at hvalid
          bv_omega
      · have hwalk : walk next (n + 1 + 1) j c =
            c :: walk next (n + 1) (j + 1) ((next j c).setWidth 32) := by
          rw [walk, if_neg (by simp [hend])]
        have hrest := ih (j + 1) (link c) (by omega)
        rw [hwalk, List.isChain_cons, walk_head, List.length_cons, List.forall_mem_cons]
        simp only [Option.mem_some, forall_eq', Nat.add_right_cancel_iff]
        by_cases hlink : (next j c).setWidth 32 = link c
        · rw [hlink, ← hrest]
          simp
          grind
        · simp [hlink]

/-- The loop over the sectors of a whole cluster makes as many transfers. -/
theorem readClusterData_faulty {k : ℕ} (hk : k + turns ≤ 255)
    (hchunk : chunk.toNat = 512 * (k + turns))
    (hok : (readClusterData (faultyDisk f) base offset chunk bufferSize turns (BitVec.ofNat 32 k)
      (BitVec.ofNat 32 (512 * k)) buffer (d, t)).1.1 = true) :
    (readClusterData (faultyDisk f) base offset chunk bufferSize turns (BitVec.ofNat 32 k)
      (BitVec.ofNat 32 (512 * k)) buffer (d, t)).2 = (d, t + turns) := by
  induction turns generalizing k buffer t with
  | zero => rfl
  | succ turns ih =>
    have hmore : BitVec.ofNat 32 (512 * k) < chunk := by bv_omega
    rw [readClusterData_succ, if_pos hmore] at hok ⊢
    dsimp only at hok ⊢
    by_cases hread : ((faultyDisk f).readSector (base + BitVec.ofNat 32 k) (d, t)).1.1 = true
    · rw [if_neg (not_not_intro hread)] at hok ⊢
      have hrest := ih (by omega) (by omega) hok
      rw [show t + (turns + 1) = t + 1 + turns by omega]
      exact hrest
    · rw [if_pos hread] at hok
      exact Bool.noConfusion hok

/-- `fat_read_entry` takes one transfer. -/
theorem fatReadEntry_faulty (f : Faults) (cluster : U32) (hdev : s.dev = (d, t)) :
    (fatReadEntry (faultyDisk f) cluster s).1 = seenEntry f s.vol d t cluster ∧
      (fatReadEntry (faultyDisk f) cluster s).2.vol = s.vol ∧
      (fatReadEntry (faultyDisk f) cluster s).2.dev = (d, t + 1) := by
  unfold fatReadEntry seenEntry entryIn entryLba faultyDisk
  rw [hdev]
  cases hf : f.read t (s.vol.fatStart + sectorIndex s.vol cluster) <;> simp [hf]

/-- A file with data needs a cluster. -/
theorem MountedVolume.clustersNeeded_pos (hv : MountedVolume v) {size : ℕ} (hsize : 0 < size) :
    0 < v.clustersNeeded size := by
  have hspc := hv.sectorsPerCluster_pos
  exact Nat.div_pos (by omega) (by omega)

/-- Data of at most one cluster needs one. -/
theorem MountedVolume.clustersNeeded_last (hv : MountedVolume v) {size : ℕ} (hsize : 0 < size)
    (hle : size ≤ 512 * v.sectorsPerCluster.toNat) : v.clustersNeeded size = 1 := by
  have hspc := hv.sectorsPerCluster_pos
  exact Nat.div_eq_of_lt_le (by omega) (by omega)

/-- Data of more than one cluster needs one for its first part and those for the rest. -/
theorem MountedVolume.clustersNeeded_more (hv : MountedVolume v) {size : ℕ}
    (hlt : 512 * v.sectorsPerCluster.toNat < size) : v.clustersNeeded size =
      v.clustersNeeded (size - 512 * v.sectorsPerCluster.toNat) + 1 := by
  have hspc := hv.sectorsPerCluster_pos
  unfold Volume.clustersNeeded
  rw [← Nat.add_div_right _ (by omega)]
  congr 1
  omega

/-- A turn of the loop that is not the last one takes one of the clusters. -/
theorem MountedVolume.clustersNeeded_rest (hv : MountedVolume v) (hb : v.bytesPerSector = 512#32)
    (hmore : remaining - thisChunk v remaining ≠ 0#32) : v.clustersNeeded remaining.toNat =
      v.clustersNeeded (remaining - thisChunk v remaining).toNat + 1 := by
  have hchunk := toNat_thisChunk_of_512 remaining hv hb
  rw [hv.clustersNeeded_more (by bv_omega)]
  congr 2
  bv_omega

/-- The data has room in its clusters. -/
theorem MountedVolume.le_clustersNeeded (hv : MountedVolume v) (size : ℕ) :
    size ≤ 512 * v.sectorsPerCluster.toNat * v.clustersNeeded size := by
  have hspc := hv.sectorsPerCluster_pos
  have hdiv := Nat.div_add_mod (size + 512 * v.sectorsPerCluster.toNat - 1)
    (512 * v.sectorsPerCluster.toNat)
  have hmod := Nat.mod_lt (size + 512 * v.sectorsPerCluster.toNat - 1)
    (show 512 * v.sectorsPerCluster.toNat > 0 by omega)
  unfold Volume.clustersNeeded
  omega

/-- The entries that are read on a device with failing transfers: each cluster takes a transfer for
every sector and one for its entry. -/
theorem faultyDisk_readsEntries (hv : MountedVolume v) (f : Faults) (d : Disk) :
    ReadsEntries (faultyDisk f) v (fun j c => seenEntry f v d
      (j * (v.sectorsPerCluster.toNat + 1) + v.sectorsPerCluster.toNat) c)
      fun j d' => d' = (d, j * (v.sectorsPerCluster.toNat + 1)) := by
  have hspc := hv.sectorsPerCluster_lt
  rintro j _ base offset chunk bufferSize buffer data rfl hfull rfl hread cluster mounted overrun
  have hdev := readClusterData_faulty (k := 0) (by omega) (by omega) hread
  obtain ⟨hentry, -, hdev'⟩ := fatReadEntry_faulty f cluster (s := ⟨v, mounted, _, overrun⟩) hdev
  refine ⟨hentry, hdev'.trans ?_⟩
  rw [Nat.succ_mul]
  rfl

/-- On a disk the entries are those of the FAT. -/
theorem disk_readsEntries (s : Fat16 Disk) :
    ReadsEntries disk s.vol (fun _ c => (fatReadEntry disk c s).1) fun _ d => d = s.dev := by
  rintro j _ base offset chunk bufferSize buffer data rfl - rfl - cluster mounted overrun
  have hdev :
      (readClusterData disk base offset chunk bufferSize s.vol.sectorsPerCluster.toNat 0#32 0#32
      buffer s.dev).2 = s.dev := readClusterData_kept disk_readsContent
  rw [hdev]
  exact ⟨rfl, rfl⟩

/-- The clusters that are visited are a walk along the entries that are read. -/
theorem visitedClusters_eq {σ : Type} {a : Ata σ} {Front : ℕ → σ → Prop} {s : Fat16 σ}
    (h : ReadsEntries a s.vol next Front) (hv : MountedVolume s.vol)
    (hb : s.vol.bytesPerSector = 512#32)
    (hpos : 0 < remaining.toNat) {j : ℕ} (hfront : Front j s.dev)
    {r : (Bool × (U32 → U8)) × Fat16 σ}
    (hr : readClusters a bufferSize turns cluster offset remaining buffer s = some r)
    (hok : r.1.1 = true) :
    visitedClusters a bufferSize turns cluster offset remaining buffer s =
      walk next (s.vol.clustersNeeded remaining.toNat) j cluster := by
  induction turns generalizing cluster offset remaining buffer s j with
  | zero => simp [readClusters] at hr
  | succ turns ih =>
    have hspc := hv.sectorsPerCluster_lt
    have hspc' := hv.sectorsPerCluster_pos
    have hchunk := toNat_thisChunk_of_512 remaining hv hb
    unfold readClusters at hr
    unfold visitedClusters
    dsimp only at hr ⊢
    generalize hdata : readClusterData a (clusterToLba s.vol cluster) offset
      (thisChunk s.vol remaining) bufferSize s.vol.sectorsPerCluster.toNat 0#32 0#32 buffer s.dev =
        data at hr ⊢
    generalize hnext : fatReadEntry a cluster { s with dev := data.2 } = entry at hr ⊢
    have hmore : 0#32 < remaining := by bv_omega
    rw [if_pos hmore] at hr ⊢
    by_cases hread : data.1.1 = true
    · rw [if_neg (not_not_intro hread)] at hr ⊢
      by_cases hlast : remaining - thisChunk s.vol remaining = 0#32
      · rw [if_pos hlast, hv.clustersNeeded_last hpos (by bv_omega), walk, if_pos (.inl rfl)]
      · rw [if_neg hlast] at hr ⊢
        have hneeded := hv.clustersNeeded_rest hb hlast
        have hvol : entry.2.vol = s.vol := by rw [← hnext]; rfl
        obtain ⟨hentry, hfront'⟩ :=
          h j _ _ _ _ _ _ data hfront (by bv_omega) hdata hread cluster s.mounted s.overrun
        rw [hnext] at hentry hfront'
        by_cases hend : 0xFFF8#16 ≤ entry.1
        · rw [if_pos hend, hneeded, walk, if_pos (.inr (hentry ▸ hend))]
        · rw [if_neg hend] at hr ⊢
          have hrest := ih (hvol ▸ h) (hvol ▸ hv) (hvol ▸ hb) (by bv_omega) hfront' hr
          have hpos' := hv.clustersNeeded_pos
            (show 0 < (remaining - thisChunk s.vol remaining).toNat by bv_omega)
          rw [hneeded, walk, if_neg, hrest, hvol, hentry]
          rw [not_or, ← hentry]
          exact ⟨by omega, hend⟩
    · rw [if_pos hread] at hr
      obtain rfl := Option.some.inj hr
      exact absurd hok hread

/-- On a mounted volume whose sectors can all be read, `fat16_read_file` returns 1. -/
theorem fat16ReadFile_succeeds {σ : Type} {a : Ata σ} (s : Fat16 σ) (first size bufferSize : U32)
    (buffer : U32 → U8) (h : ∀ lba d, (a.readSector lba d).1.1 = true) (hv : MountedVolume s.vol)
    (hm : s.mounted = true) :
    ∃ r, fat16ReadFile a first size buffer bufferSize s = some r ∧ r.1.1 = true := by
  unfold fat16ReadFile
  rw [if_neg (not_not_intro hm)]
  split_ifs with hempty
  · exact ⟨_, rfl, rfl⟩
  · obtain ⟨r, hr⟩ : ∃ r, readClusters a bufferSize (2 ^ 32) first 0#32 size buffer s = some r :=
      readClusters_ends hv size.isLt
    exact ⟨r, hr, readClusters_succeeds h hr⟩

/-- What `fat16_read_file` visits when it returns 1, and what is in the buffer. -/
theorem fat16ReadFile_content {σ : Type} {a : Ata σ} {content : σ → Disk} {Front : ℕ → σ → Prop}
    {s : Fat16 σ} (h : ReadsContent a content) (hnext : ReadsEntries a s.vol next Front)
    (hfront : Front 0 s.dev) (hm : s.mounted = true) (hv : MountedVolume s.vol)
    (hb : s.vol.bytesPerSector = 512#32) (hfirst : first ≠ 0#32) (hsize : 1 ≤ size.toNat)
    (hbuffer : size.toNat ≤ bufferSize.toNat) {r : (Bool × (U32 → U8)) × Fat16 σ}
    (hr : fat16ReadFile a first size buffer bufferSize s = some r) (hok : r.1.1 = true) :
    let cs := readFileVisits a first size buffer bufferSize s
    let bytes := 512 * s.vol.sectorsPerCluster.toNat
    cs = walk next (s.vol.clustersNeeded size.toNat) 0 first ∧
      ∀ i : U32, r.1.2 i = if i.toNat < min size.toNat (bytes * cs.length)
        then clusterByte s.vol (content s.dev) (cs.getD (i.toNat / bytes) 0#32) (i.toNat % bytes)
        else buffer i := by
  have hread : ¬ (size = 0#32 ∨ first = 0#32) := by
    rw [not_or]
    exact ⟨by bv_omega, hfirst⟩
  have hfits : (0#32).toNat + size.toNat ≤ bufferSize.toNat := by simpa using hbuffer
  unfold fat16ReadFile at hr
  unfold readFileVisits
  dsimp only at hr ⊢
  rw [if_neg (not_not_intro hm), if_neg hread] at hr ⊢
  refine ⟨visitedClusters_eq hnext hv hb (by omega) hfront hr hok, fun i => ?_⟩
  have hbytes := readClusters_content h hv hb hfits hr hok i
  simpa using hbytes

/-- A returned 1 means that the whole file was read. On a mounted volume with sectors of 512 bytes,
whatever its FAT and its data hold and whichever transfers fail: a call that returns 1 has visited
the chain of the file, all of it data clusters, and has put the bytes of the file in the buffer,
if and only if the chain is long enough and its entries are read. -/
theorem whole_file_iff {overrun : Bool} (hv : MountedVolume v)
    (hb : v.bytesPerSector = 512#32) (hfirst : 2 ≤ first.toNat ∧ first.toNat < 0xFFF0)
    (hsize : 1 ≤ size.toNat) (hbuffer : size.toNat ≤ bufferSize.toNat)
    {r : (Bool × (U32 → U8)) × Fat16 (Disk × ℕ)}
    (hr : fat16ReadFile (faultyDisk f) first size buffer bufferSize ⟨v, true, (d, 0), overrun⟩ =
      some r)
    (hok : r.1.1 = true) :
    WholeFile v d size.toNat (readFileVisits (faultyDisk f) first size buffer bufferSize
        ⟨v, true, (d, 0), overrun⟩) r.1.2 ↔
      ChainReadable f v d first (v.clustersNeeded size.toNat) := by
  have hfirst' : first ≠ 0#32 := by bv_omega
  obtain ⟨hvisits, hbytes⟩ := fat16ReadFile_content (faultyDisk_readsContent f)
    (faultyDisk_readsEntries hv f d) (by simp) rfl hv hb hfirst' hsize hbuffer hr hok
  dsimp only at hvisits hbytes
  have hchain := walk_chain_iff (fun j c => seenEntry f v d
    (j * (v.sectorsPerCluster.toNat + 1) + v.sectorsPerCluster.toNat) c) (linkOf v d) 0 first
    (hv.clustersNeeded_pos (show 0 < size.toNat by omega))
  simp only [Nat.zero_add] at hchain
  unfold ChainReadable
  rw [← hchain, ← hvisits]
  constructor
  · intro h
    exact ⟨h.length, h.chain, h.valid⟩
  · rintro ⟨hlength, hlinks, hvalid⟩
    have hcover := hv.le_clustersNeeded size.toNat
    refine ⟨hlength, hlinks, hvalid, fun i hi => (hbytes i).trans (if_pos ?_)⟩
    rw [hlength]
    omega

end

/-- No transfer fails. -/
def noFaults : Faults := ⟨fun _ _ => none, fun _ _ => false⟩

/-- Without failures all reads succeed. -/
theorem noFaults_succeeds (lba : U32) (d : Disk × ℕ) :
    ((faultyDisk noFaults).readSector lba d).1.1 = true := rfl

/-- A volume all of whose sectors have the same byte everywhere. -/
def uniformMounted (c : U8) : Fat16 (Disk × ℕ) :=
  ⟨formattedVolume 2048#32, true, (fun _ => .ofFn fun _ => c, 0), false⟩

/-- A file of two clusters is read from a volume full of the byte 5, on which the entry of each
cluster, 2 too, is `0x0505`. -/
theorem uniformMounted_read : ∃ r, fat16ReadFile (faultyDisk noFaults) 2#32 40000#32
      (fun _ => 0xFF#8) 40000#32 (uniformMounted 5#8) = some r ∧
    (formattedVolume 2048#32).clustersNeeded 40000 = 2 ∧
    WholeFile (formattedVolume 2048#32) (uniformMounted 5#8).dev.1 40000
      (readFileVisits (faultyDisk noFaults) 2#32 40000#32 (fun _ => 0xFF#8) 40000#32
        (uniformMounted 5#8)) r.1.2 := by
  have hv := formattedVolume_mounted 2048#32
  obtain ⟨r, hr, hok⟩ := fat16ReadFile_succeeds (uniformMounted 5#8) 2#32 40000#32 40000#32
    (fun _ => 0xFF#8) noFaults_succeeds hv rfl
  have htwo : (formattedVolume 2048#32).clustersNeeded (40000#32).toNat = 2 := rfl
  refine ⟨r, hr, htwo, (whole_file_iff hv rfl (by decide) (by decide) (by decide) hr hok).mpr ?_⟩
  intro i hi
  rw [htwo] at hi
  obtain rfl | rfl : i = 0 ∨ i = 1 := by omega
  · exact ⟨by decide, fun _ => rfl⟩
  · exact ⟨by decide, fun hi => absurd hi (by omega)⟩

/-- The chain ends behind the first of two clusters, and 1 is returned. -/
theorem uniformMounted_cut_off : ∃ r, fat16ReadFile (faultyDisk noFaults) 2#32 32769#32
      (fun _ => 0#8) 32769#32 (uniformMounted 0xFF#8) = some r ∧ r.1.1 = true ∧
      ¬ WholeFile (formattedVolume 2048#32) (uniformMounted 0xFF#8).dev.1 32769
        (readFileVisits (faultyDisk noFaults) 2#32 32769#32 (fun _ => 0#8) 32769#32
          (uniformMounted 0xFF#8)) r.1.2 := by
  have hv := formattedVolume_mounted 2048#32
  obtain ⟨r, hr, hok⟩ := fat16ReadFile_succeeds (uniformMounted 0xFF#8) 2#32 32769#32 32769#32
    (fun _ => 0#8) noFaults_succeeds hv rfl
  refine ⟨r, hr, hok, fun h => ?_⟩
  have hvisits := (fat16ReadFile_content (faultyDisk_readsContent noFaults)
    (faultyDisk_readsEntries hv noFaults _) rfl rfl hv rfl (by decide) (by decide)
      (by decide) hr hok).1
  have htwo : (formattedVolume 2048#32).clustersNeeded 32769 = 1 + 1 := rfl
  have hend : (0xFFF8#16 : U16) ≤ seenEntry noFaults (formattedVolume 2048#32)
    (uniformMounted 0xFF#8).dev.1 64 2#32 := by decide
  have hlength := h.length
  have hsize : (32769#32).toNat = 32769 := rfl
  have hvol : (uniformMounted 0xFF#8).vol = formattedVolume 2048#32 := rfl
  rw [hvol, hsize, htwo, walk, if_pos (.inr hend)] at hvisits
  rw [htwo] at hlength
  exact absurd ((congrArg List.length hvisits).symm.trans hlength) (by decide)

end AlderKernel.Fs
