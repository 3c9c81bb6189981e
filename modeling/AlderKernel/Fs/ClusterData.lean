import AlderKernel.Fs.FatTable

/-!
# Writing the sectors of clusters

The loops that write consecutive sectors, on a disk without failures: they fill a cluster and
change nothing else. A loop over several clusters only changes clusters that were free.
-/

namespace AlderKernel.Fs

open Machine

/-- Store `f i`, `f (i + 1)` and so on, a number of sectors, from `base + i` on. -/
def storeSectors (base : U32) (f : ℕ → Sector) : ℕ → ℕ → Disk → Disk
  | 0, _, d => d
  | turns + 1, i, d =>
    storeSectors base f turns (i + 1) (Function.update d (base + BitVec.ofNat 32 i) (f i))

section

variable {base : U32} {f : ℕ → Sector}

/-- The other sectors are kept. -/
theorem storeSectors_of_ne {turns i : ℕ} {d : Disk} {x : U32}
    (hne : ∀ j < turns, x ≠ base + BitVec.ofNat 32 (i + j)) :
    storeSectors base f turns i d x = d x := by
  induction turns generalizing i d with
  | zero => rfl
  | succ turns ih =>
    have hfirst := hne 0 (by omega)
    rw [Nat.add_zero] at hfirst
    unfold storeSectors
    rw [ih, Function.update_of_ne hfirst]
    intro j hj
    have hj' := hne (j + 1) (by omega)
    rwa [show i + (j + 1) = i + 1 + j by omega] at hj'

/-- Each sector of the range is stored. -/
theorem storeSectors_self {turns i j : ℕ} {d : Disk} (hbound : i + turns ≤ 2 ^ 32)
    (hij : i ≤ j) (hj : j < i + turns) :
    storeSectors base f turns i d (base + BitVec.ofNat 32 j) = f j := by
  induction turns generalizing i d with
  | zero => omega
  | succ turns ih =>
    unfold storeSectors
    rcases Nat.eq_or_lt_of_le hij with rfl | hgt
    · rw [storeSectors_of_ne, Function.update_self]
      intro m hm
      rw [Ne, BitVec.add_right_inj]
      intro heq
      have heq' := congrArg BitVec.toNat heq
      rw [BitVec.toNat_ofNat, BitVec.toNat_ofNat] at heq'
      omega
    · exact ih (by omega) (by omega) (by omega)

/-- The sectors of a volume after a row of them was stored. -/
theorem storeSectors_lba {v : Volume} {turns b k : ℕ} {d : Disk} (hb : b + turns ≤ 2 ^ 32)
    (hk : k < 2 ^ 32) : storeSectors (v.lba b) f turns 0 d (v.lba k) =
      if b ≤ k ∧ k < b + turns then f (k - b) else d (v.lba k) := by
  split_ifs with hin
  · obtain ⟨j, rfl⟩ := Nat.exists_eq_add_of_le hin.1
    rw [← v.lba_add, storeSectors_self (by omega) (by omega) (by omega), Nat.add_sub_cancel_left]
  · apply storeSectors_of_ne
    intro j hj
    rw [v.lba_add, Ne, v.lba_inj hk (by omega)]
    omega

/-- Writing one buffer again and again. -/
theorem writeSectors_disk (base : U32) (sector : Sector) (turns i : ℕ) (d : Disk) :
    writeSectors disk base sector turns (BitVec.ofNat 32 i) d =
      (true, storeSectors base (fun _ => sector) turns i d) := by
  induction turns generalizing i d with
  | zero => rfl
  | succ turns ih =>
    unfold storeSectors
    rw [← ih, BitVec.ofNat_add]
    rfl

/-- The first sector of a row is written by itself, and zeros behind it. -/
theorem writeSectors_behind {first : Sector} {n : ℕ} {d : Disk} :
    writeSectors disk base .zero n 1#32 (Function.update d base first) =
      (true, storeSectors base (fun i => if i = 0 then first else .zero) (n + 1) 0 d) := by
  have hzero : ∀ turns i d, 0 < i → storeSectors base (fun _ => Buffer.zero) turns i d =
      storeSectors base (fun i => if i = 0 then first else .zero) turns i d := by
    intro turns
    induction turns with
    | zero => intro i d _; rfl
    | succ turns ih =>
      intro i d hi
      unfold storeSectors
      rw [if_neg (by omega)]
      exact ih _ _ (by omega)
  have hrest := writeSectors_disk base .zero n 1 (Function.update d base first)
  rw [hrest, hzero _ _ _ (by omega)]
  conv_rhs => rw [storeSectors, BitVec.add_zero]
  rfl

/-- The sectors of file data that `write_file_data` gives a cluster. -/
def chunkSector (data : U32 → U8) (offset chunk : U32) (i : ℕ) : Sector :=
  fileSector data offset (BitVec.ofNat 32 (512 * i)) chunk

/-- The loop over the sectors of a cluster, on a disk without failures. -/
theorem writeClusterData_disk {data : U32 → U8} {offset chunk : U32} {turns i : ℕ} {d : Disk} :
    writeClusterData disk data base offset chunk turns (BitVec.ofNat 32 i)
        (BitVec.ofNat 32 (512 * i)) d =
      (true, storeSectors base (chunkSector data offset chunk) turns i d) := by
  induction turns generalizing i d with
  | zero => rfl
  | succ turns ih =>
    unfold storeSectors
    rw [← ih, Nat.mul_add, BitVec.ofNat_add, BitVec.ofNat_add]
    rfl

end

/-- Store `f 0`, `f 1` and so on in the sectors of a cluster. -/
def fillCluster (v : Volume) (c : ℕ) (f : ℕ → Sector) (d : Disk) : Disk :=
  storeSectors (clusterToLba v (BitVec.ofNat 32 c)) f v.sectorsPerCluster.toNat 0 d

section

variable {v : Volume} {c : ℕ} {f : ℕ → Sector} {d : Disk}

/-- The sectors of the cluster that is filled. -/
theorem fillCluster_sector (h : MountedVolume v) (hc : 2 ≤ c) {s : ℕ}
    (hs : s < v.sectorsPerCluster.toNat) :
    fillCluster v c f d (v.lba (v.clusterOffset c s)) = f s := by
  have hspc := h.sectorsPerCluster_lt
  rw [← h.clusterToLba_eq hc]
  exact storeSectors_self (by omega) (by omega) (by omega)

/-- Filling a cluster changes this cluster only. -/
theorem fillCluster_changesOnly (h : MountedVolume v) (hc : v.Addressable c) (hc2 : 2 ≤ c) :
    ChangesOnly v {some c} d (fillCluster v c f d) := by
  apply h.changesOnly_of_holds
  intro k hk hout
  apply storeSectors_of_ne
  intro s hs
  have hlt := h.clusterOffset_lt hc hs
  rw [Nat.zero_add, h.clusterToLba_eq hc2, Ne, v.lba_inj hk hlt]
  intro heq
  exact hout ⟨s, hs, heq⟩

/-- One turn of `write_file_data`: it fills the cluster, and then marks the end of the chain or
appends a cluster to it. -/
theorem writeClusters_succ {s : Fat16 Disk} (data : U32 → U8) (turns : ℕ) (offset remaining : U32) :
    writeClusters disk data (turns + 1) (BitVec.ofNat 32 c) offset remaining s =
      let chunk := thisChunk s.vol remaining
      let filled := { s with dev := fillCluster s.vol c (chunkSector data offset chunk) s.dev }
      if remaining - chunk = 0#32 then
        some (true, fatWriteEntry disk (BitVec.ofNat 32 c) 0xFFFF#16 filled)
      else
        let next := fatAllocCluster disk filled
        if next.1 = 0#32 then some (false, next.2)
        else writeClusters disk data turns next.1 (offset + chunk) (remaining - chunk)
          (fatWriteEntry disk (BitVec.ofNat 32 c) (next.1.setWidth 16) next.2) := by
  have hfill : writeClusterData disk data (clusterToLba s.vol (BitVec.ofNat 32 c)) offset
      (thisChunk s.vol remaining) s.vol.sectorsPerCluster.toNat 0#32 0#32 s.dev =
      (true, fillCluster s.vol c (chunkSector data offset (thisChunk s.vol remaining)) s.dev) :=
    writeClusterData_disk
  rw [writeClusters]
  simp only [hfill, not_true_eq_false, if_false]

/-- The loop over the clusters keeps the fields of the volume and the mount. -/
theorem writeClusters_follows {σ : Type} {a : Ata σ} {data : U32 → U8} {turns : ℕ}
    {r offset remaining : U32} {s s' : Fat16 σ} {ok : Bool}
    (hr : writeClusters a data turns r offset remaining s = some (ok, s')) : Follows s s' := by
  induction turns generalizing r offset remaining s with
  | zero => exact absurd hr (by simp [writeClusters])
  | succ turns ih =>
    unfold writeClusters at hr
    dsimp only at hr
    have hstore : ∀ d, Follows s { s with dev := d } := fun d => ⟨rfl, rfl, fun ho => ho⟩
    split_ifs at hr
    · obtain ⟨-, rfl⟩ := Prod.mk.inj (Option.some.inj hr)
      exact (hstore _).trans fatWriteEntry_follows
    · obtain ⟨-, rfl⟩ := Prod.mk.inj (Option.some.inj hr)
      exact (hstore _).trans (fatAllocCluster_follows rfl)
    · have hlink := fatWriteEntry_follows.trans (ih hr)
      exact ((hstore _).trans (fatAllocCluster_follows rfl)).trans hlink
    · obtain ⟨-, rfl⟩ := Prod.mk.inj (Option.some.inj hr)
      exact hstore _

/-- What one turn of `write_file_data` can do once it has filled the cluster: end the chain, find
no free cluster, or link to the first free one and go on there. -/
theorem writeClusters_cases {data : U32 → U8} {turns : ℕ} {offset remaining : U32}
    {s s' : Fat16 Disk} {ok : Bool} {d₁ : Disk} (h : MountedVolume s.vol)
    (haddr : s.vol.Addressable c)
    (hbuf : s.vol.bytesPerSector.toNat ≤ 512 ∨ s'.overrun = false)
    (hd₁ : d₁ = fillCluster s.vol c (chunkSector data offset (thisChunk s.vol remaining)) s.dev)
    (hr : writeClusters disk data (turns + 1) (BitVec.ofNat 32 c) offset remaining s =
      some (ok, s')) :
    (remaining = thisChunk s.vol remaining ∧ ok = true ∧
      s' = { s with dev := putEntry s.vol c 0xFFFF#16 d₁ }) ∨
    (remaining ≠ thisChunk s.vol remaining ∧ ok = false ∧ s' = { s with dev := d₁ } ∧
      InUse s.vol d₁ 2 s.vol.clusters) ∨
    remaining ≠ thisChunk s.vol remaining ∧
      ∃ n, 2 ≤ n ∧ s.vol.Addressable n ∧ entryAt s.vol d₁ 0 n = 0#16 ∧ InUse s.vol d₁ 2 n ∧
        writeClusters disk data turns (BitVec.ofNat 32 n) (offset + thisChunk s.vol remaining)
          (remaining - thisChunk s.vol remaining)
          { s with dev := putEntry s.vol c (BitVec.ofNat 16 n) (putEntry s.vol n 0xFFFF#16 d₁) } =
            some (ok, s') := by
  rw [writeClusters_succ] at hr
  dsimp only at hr
  rw [← hd₁] at hr
  by_cases hlast : remaining - thisChunk s.vol remaining = 0#32
  · rw [if_pos hlast, fatWriteEntry_disk (s := { s with dev := d₁ }) h haddr] at hr
    obtain ⟨rfl, rfl⟩ := Prod.mk.inj (Option.some.inj hr)
    exact Or.inl ⟨by bv_omega, rfl, rfl⟩
  · right
    rw [if_neg hlast] at hr
    have hmore : remaining ≠ thisChunk s.vol remaining := by bv_omega
    generalize hnext : fatAllocCluster disk { s with dev := d₁ } = next at hr
    obtain ⟨r, s₂⟩ := next
    have hfollows : Follows s₂ s' := by
      split_ifs at hr
      · obtain ⟨-, rfl⟩ := Prod.mk.inj (Option.some.inj hr)
        exact .refl s₂
      · exact fatWriteEntry_follows.trans (writeClusters_follows hr)
    have hcases :=
      fatAllocCluster_cases (s := { s with dev := d₁ }) h (hbuf.imp_right hfollows.overrun) hnext
    rcases hcases with ⟨rfl, rfl, hused⟩ | ⟨n, rfl, hn, hnaddr, hzero, hused, rfl⟩
    · rw [if_pos rfl] at hr
      obtain ⟨rfl, rfl⟩ := Prod.mk.inj (Option.some.inj hr)
      exact Or.inl ⟨hmore, rfl, rfl, hused⟩
    · have hne : BitVec.ofNat 32 n ≠ 0#32 := by
        have hlt := h.clusters_lt
        have hlt' : n < s.vol.clusters := hnaddr.lt
        intro heq
        have heq' := congrArg BitVec.toNat heq
        rw [BitVec.toNat_ofNat, BitVec.toNat_ofNat] at heq'
        omega
      have hwidth : (BitVec.ofNat 32 n).setWidth 16 = BitVec.ofNat 16 n := by
        apply BitVec.eq_of_toNat_eq
        rw [BitVec.toNat_setWidth, BitVec.toNat_ofNat, BitVec.toNat_ofNat]
        omega
      rw [if_neg hne, hwidth, fatWriteEntry_disk
        (s := { s with dev := putEntry s.vol n 0xFFFF#16 d₁ }) h haddr] at hr
      exact Or.inr ⟨hmore, n, hn, hnaddr, hzero, hused, hr⟩

/-! ### Only free clusters are taken -/

/-- The free clusters are in `S`. -/
def FreeIn (v : Volume) (S : Set (Option ℕ)) (d : Disk) : Prop :=
  ∀ n, 2 ≤ n → v.Addressable n → entryAt v d 0 n = 0#16 → some n ∈ S

/-- Changes to clusters of `S` make no other cluster free. -/
theorem FreeIn.of_changesOnly {S : Set (Option ℕ)} {d' : Disk} (h : FreeIn v S d)
    (hfats : 0 < v.numFats.toNat) (hd : ChangesOnly v S d d') : FreeIn v S d' := by
  intro n hn haddr hzero
  by_contra hout
  rw [hd.entry 0 hfats n haddr hout] at hzero
  exact hout (h n hn haddr hzero)

/-- An allocation changes at most a cluster that was free. -/
theorem fatAllocCluster_changesOnly {S : Set (Option ℕ)} {s s' : Fat16 Disk} {r : U32}
    (h : MountedVolume s.vol) (hS : FreeIn s.vol S s.dev)
    (hbuf : s.vol.bytesPerSector.toNat ≤ 512 ∨ s'.overrun = false)
    (hr : fatAllocCluster disk s = (r, s')) :
    ChangesOnly s.vol S s.dev s'.dev ∧
      (r ≠ 0#32 → ∃ n, r = BitVec.ofNat 32 n ∧ 2 ≤ n ∧ s.vol.Addressable n ∧ some n ∈ S) := by
  rcases fatAllocCluster_cases h hbuf hr with ⟨rfl, rfl, -⟩ | ⟨n, rfl, hn, haddr, hzero, -, rfl⟩
  · exact ⟨.refl S _, fun hne => absurd rfl hne⟩
  · have hmem := hS n hn haddr hzero
    refine ⟨(putEntry_changesOnly h haddr _ _).mono ?_, fun _ => ⟨n, rfl, hn, haddr, hmem⟩⟩
    exact Set.singleton_subset_iff.mpr hmem

/-- Writing file data changes only the cluster it starts at and clusters that were free. -/
theorem writeClusters_changesOnly {S : Set (Option ℕ)} {data : U32 → U8} {turns : ℕ}
    {offset remaining : U32} {s s' : Fat16 Disk} {ok : Bool} (h : MountedVolume s.vol)
    (hfats : 0 < s.vol.numFats.toNat) (hc : 2 ≤ c) (haddr : s.vol.Addressable c)
    (hmem : some c ∈ S) (hS : FreeIn s.vol S s.dev)
    (hbuf : s.vol.bytesPerSector.toNat ≤ 512 ∨ s'.overrun = false)
    (hr : writeClusters disk data turns (BitVec.ofNat 32 c) offset remaining s = some (ok, s')) :
    ChangesOnly s.vol S s.dev s'.dev := by
  induction turns generalizing c offset remaining s with
  | zero => exact absurd hr (by simp [writeClusters])
  | succ turns ih =>
    have hsub : {some c} ⊆ S := Set.singleton_subset_iff.mpr hmem
    have hfill : ChangesOnly s.vol S s.dev
        (fillCluster s.vol c (chunkSector data offset (thisChunk s.vol remaining)) s.dev) :=
      (fillCluster_changesOnly h haddr hc).mono hsub
    rcases writeClusters_cases h haddr hbuf rfl hr with ⟨-, -, rfl⟩ | ⟨-, -, rfl, -⟩ | hmore
    · exact hfill.trans ((putEntry_changesOnly h haddr _ _).mono hsub)
    · exact hfill
    · obtain ⟨-, n, hn, hnaddr, hzero, -, hr'⟩ := hmore
      have hnmem := hS.of_changesOnly hfats hfill n hn hnaddr hzero
      have hmark := (putEntry_changesOnly h hnaddr 0xFFFF#16 (fillCluster s.vol c
        (chunkSector data offset (thisChunk s.vol remaining)) s.dev)).mono
        (Set.singleton_subset_iff.mpr hnmem)
      have hlink := (hfill.trans hmark).trans
        ((putEntry_changesOnly h haddr (BitVec.ofNat 16 n) _).mono hsub)
      generalize putEntry s.vol c _ _ = d₂ at hlink hr'
      have hS' := hS.of_changesOnly hfats hlink
      have hrest := ih (s := { s with dev := d₂ }) h hfats hn hnaddr hnmem hS' hbuf hr'
      exact hlink.trans hrest

end

end AlderKernel.Fs
