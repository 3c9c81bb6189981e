import AlderKernel.Fs.StoredFiles

/-!
# Runs of calls on a formatted volume

A call stores what it makes behind the clusters in use and writes its entry behind the entries of
its directory, or it fails and leaves what earlier calls have made. So what the successful calls of
a run have made is stored after it.
-/

namespace AlderKernel.Fs

open Machine SlotTable

/-- What a call makes is stored in clusters of its own, and its entry is still to be written. -/
structure Ready (p : U32) (d : Disk) (next : ℕ) (l : List Made) (o : Made) : Prop where
  empty : o.call.clusters = 0 → o.first = 0
  bounds : 0 < o.call.clusters → 2 ≤ o.first ∧ o.first + o.call.clusters ≤ next
  apart : ∀ o' ∈ l, Disjoint o'.clusters o.clusters
  chained : Chained p d o.first o.call.clusters
  data : DataStored p d o.first o.call.data o.call.size
  table : o.call.isMkdir = true →
    DirHolds p d (.cluster (BitVec.ofNat 32 o.first))
      (Dir.dots (.cluster (BitVec.ofNat 32 o.first)))
  /-- No earlier call was on the new directory. -/
  fresh : o.call.isMkdir = true → ∀ o' ∈ l, o'.call.dir ≠ .cluster (BitVec.ofNat 32 o.first)

section

variable {p : U32} {d : Disk} {l : List Made} {o : Made} {next i : ℕ} {dir : Dir}

/-- A directory lies in none of the clusters of a file. -/
theorem Ready.dir_ne (h : Stores p d next l) (hready : Ready p d next l o) (hdir : IsDir l dir)
    {o' : Made} (ho' : o' ∈ l ++ [o]) (hfile : o'.call.isMkdir = false) {c : ℕ}
    (hc : c ∈ o'.clusters) (hlt : c < 65536) : dir ≠ .cluster (BitVec.ofNat 32 c) := by
  have hle := h.used.le
  rcases hdir with rfl | ⟨o'', ho'', hmkdir, rfl⟩
  · exact Dir.noConfusion
  · have hclusters := o''.call.clusters_of_isMkdir hmkdir
    obtain ⟨-, hnext⟩ := h.bounds o'' ho'' (by omega)
    intro heq
    have heq' := congrArg BitVec.toNat (Dir.cluster.inj heq)
    rw [BitVec.toNat_ofNat, BitVec.toNat_ofNat, Nat.mod_eq_of_lt (by omega),
      Nat.mod_eq_of_lt (by omega)] at heq'
    have hmem : c ∈ o''.clusters := ⟨heq'.le, by rw [hclusters]; omega⟩
    have hdisjoint : Disjoint o''.clusters o'.clusters := by
      rcases List.mem_append.mp ho' with ho' | ho'
      · have hsymm : Std.Symm fun o o' : Made => Disjoint o.clusters o'.clusters :=
          ⟨fun _ _ h => h.symm⟩
        apply h.apart.forall ho'' ho'
        rintro rfl
        rw [hmkdir] at hfile
        exact absurd hfile (by decide)
      · obtain rfl := List.mem_singleton.mp ho'
        exact hready.apart o'' ho''
    exact Set.disjoint_left.mp hdisjoint hmem hc

/-- A directory is one from before, or the one that was made last. -/
theorem IsDir.of_concat (h : IsDir (l ++ [o]) dir) :
    IsDir l dir ∨ o.call.isMkdir = true ∧ dir = .cluster (BitVec.ofNat 32 o.first) := by
  rcases h with rfl | ⟨o', ho', hmkdir, rfl⟩
  · exact .inl (.inl rfl)
  · rcases List.mem_append.mp ho' with ho' | ho'
    · exact .inl (.inr ⟨o', ho', hmkdir, rfl⟩)
    · obtain rfl := List.mem_singleton.mp ho'
      exact .inr ⟨hmkdir, rfl⟩

/-- A new directory has no entries of earlier calls. -/
theorem Ready.liveEntries_eq_nil (hready : Ready p d next l o) (hmkdir : o.call.isMkdir = true) :
    liveEntries (.cluster (BitVec.ofNat 32 o.first)) l = [] := by
  unfold liveEntries
  rw [List.map_eq_nil_iff, List.filter_eq_nil_iff]
  intro o' ho' hin
  exact hready.fresh hmkdir o' ho' (of_decide_eq_true hin).1

/-- Writing the entry of what was made completes it. -/
theorem Stores.add (h : Stores p d next l) (hready : Ready p d next l o)
    (hdir : IsDir l o.call.dir)
    (hi : i < 16 * o.call.dir.sectors (formattedVolume p))
    (husable : slotUsable (slotAt d (o.call.dir.base (formattedVolume p)) i) = true)
    (hfirst : ∀ j < i, slotUsable (slotAt d (o.call.dir.base (formattedVolume p)) j) = false) :
    Stores p (putSlot d (o.call.dir.base (formattedVolume p)) i o.entry) next (l ++ [o]) := by
  obtain ⟨hvalid, hend⟩ := h.dir_valid hdir
  have hstart := hvalid.start_lt (p := p)
  have hle := h.used.le
  have hlba {k : ℕ} := hvalid.putSlot_lba (p := p) (d := d) (e := o.entry) (k := k) hi
  have hplace :=
    (h.table _ hdir).place hvalid (fun x hx => slotUsable_of_mem hx) o.slotEnded_entry hi
    husable hfirst
  generalize putSlot d (o.call.dir.base (formattedVolume p)) i o.entry = d' at hlba hplace ⊢
  have hfat : SameFat (formattedVolume p) d d' := by
    intro k hk
    rw [formatted_rootOffset] at hk
    exact hlba (by omega) (by omega)
  have hentry (c : ℕ) (hc : c < 65536) :
      entryAt (formattedVolume p) d' 0 c = entryAt (formattedVolume p) d 0 c :=
    hfat.entryAt_eq (by rw [formatted_numFats]; omega) (formatted_addressable p hc)
  have hother {dir' : Dir} (hvalid' : dir'.Valid) (hne : o.call.dir ≠ dir') (k : ℕ)
      (hk : dir'.start ≤ k) (hk' : k < dir'.start + dir'.sectors (formattedVolume p)) :
      d' ((formattedVolume p).lba k) = d ((formattedVolume p).lba k) := by
    have hstart' := hvalid'.start_lt (p := p)
    have hapart := hvalid.apart (p := p) hvalid' hne
    exact hlba (by omega) (by omega)
  have hsector (c : ℕ) (hc2 : 2 ≤ c) (hc : c < 65536) (s : ℕ) (hs : s < 64)
      (hne : o.call.dir ≠ .cluster (BitVec.ofNat 32 c)) : sectorOf p d' c s = sectorOf p d c s := by
    obtain ⟨hvalid', hstart'⟩ := Dir.valid_cluster hc2 hc
    unfold sectorOf
    rw [formatted_clusterOffset]
    refine hother hvalid' hne _ (by omega) ?_
    change _ < (Dir.cluster (BitVec.ofNat 32 c)).start + 64
    omega
  have hmem {o' : Made} (ho' : o' ∈ l ++ [o]) (P : Made → Prop) (hl : ∀ o' ∈ l, P o') (ho : P o) :
      P o' := by
    rcases List.mem_append.mp ho' with ho' | ho'
    · exact hl o' ho'
    · rwa [List.mem_singleton.mp ho']
  have hbounds {o' : Made} (ho' : o' ∈ l ++ [o]) :
      0 < o'.call.clusters → 2 ≤ o'.first ∧ o'.first + o'.call.clusters ≤ next :=
    hmem ho' _ h.bounds hready.bounds
  refine ⟨h.used.sameFat hfat, fun o' ho' => hmem ho' _ h.empty hready.empty, fun o' => hbounds, ?_,
    fun o' ho' j hj => ?_, fun o' ho' j hj s hs => ?_, fun o' ho' => ?_, fun dir' hdir' => ?_⟩
  · refine List.pairwise_append.mpr ⟨h.apart, List.pairwise_singleton _ _,
      fun o' ho' o'' ho'' => ?_⟩
    rw [List.mem_singleton.mp ho'']
    exact hready.apart o' ho'
  · have hnext := hbounds ho' (by omega)
    have hchain := hmem ho' (fun o => Chained p d o.first o.call.clusters) h.chained hready.chained
    rw [hentry _ (by omega), hchain j hj]
  · obtain ⟨hsize, hfile⟩ := o'.call.clustersFor_size
    have hnext := hbounds ho' (by omega)
    have hdata :=
      hmem ho' (fun o => DataStored p d o.first o.call.data o.call.size) h.data hready.data
    rw [hsector _ (by omega) (by omega) s hs, hdata j hj s hs]
    exact hready.dir_ne h hdir ho' (hfile (by omega)) ⟨by omega, by omega⟩ (by omega)
  · exact (hmem ho' (fun o => IsDir l o.call.dir) h.dirs hdir).concat
  · by_cases hsame : o.call.dir = dir'
    · -- The new entry is behind the others, or in a slot that counts as deleted.
      subst hsame
      by_cases hlive : o.call.live = true
      · rw [liveEntries_concat, if_pos ⟨rfl, hlive⟩, ← List.append_assoc]
        exact ⟨[], by simp, by simp, by rwa [List.append_nil]⟩
      · have hdeleted := o.slotUsable_entry
        have hended := o.slotEnded_entry
        rw [Bool.not_eq_true] at hlive
        rw [liveEntries_concat, if_neg (by simp [hlive]), List.append_nil]
        refine ⟨[o.entry], by simp, ?_, hplace⟩
        simp only [slotUsable, slotEnded, hlive, Bool.not_false, decide_eq_true_eq,
          decide_eq_false_iff_not] at hdeleted hended
        simpa using hdeleted.resolve_left hended
    · rw [liveEntries_concat, if_neg fun hin => hsame hin.1, List.append_nil]
      by_cases hold : IsDir l dir'
      · exact (h.table dir' hold).congr (h.dir_valid hold).1 (hother (h.dir_valid hold).1 hsame)
      · obtain ⟨hmkdir, rfl⟩ := hdir'.of_concat.resolve_left hold
        have hclusters := o.call.clusters_of_isMkdir hmkdir
        obtain ⟨hfirst', hnext⟩ := hready.bounds (by omega)
        have hvalid' := (Dir.valid_cluster hfirst' (by omega)).1
        rw [hready.liveEntries_eq_nil hmkdir, List.append_nil]
        exact (hready.table hmkdir).congr hvalid' (hother hvalid' hsame)

end

/-! ### What a call stores -/

section

variable {p : U32} {d : Disk} {l : List Made} {next : ℕ} {call : Call} {stored : Option U32}
  {s s' : Fat16 Disk}

/-- A call that makes a directory stores one. -/
theorem Call.store_of_isMkdir (h : call.isMkdir = true) :
    call.store s = some (storeDirectory s) := by
  cases call with
  | mkdirRoot name ext => rfl
  | createFileRoot name ext data size => exact absurd h (by simp [isMkdir])
  | createFileInDir dirCluster name ext data size => exact absurd h (by simp [isMkdir])

/-- A call that makes a file stores its data. -/
theorem Call.store_of_file (h : call.isMkdir = false) : call.clusters = clustersFor call.size ∧
    call.store s = storeFile disk call.data call.size s := by
  cases call with
  | mkdirRoot name ext => exact absurd h (by simp [isMkdir])
  | createFileRoot name ext data size => exact ⟨rfl, rfl⟩
  | createFileInDir dirCluster name ext data size => exact ⟨rfl, rfl⟩

/-- A new directory has its two entries, and nothing behind them. -/
theorem dirHolds_fillCluster {c : ℕ} (hc : 2 ≤ c) (d : Disk) :
    DirHolds p (fillCluster (formattedVolume p) c (directorySector (BitVec.ofNat 32 c)) d)
      (.cluster (BitVec.ofNat 32 c)) (Dir.dots (.cluster (BitVec.ofNat 32 c))) := by
  have hmounted := formattedVolume_mounted p
  have hslot (j : ℕ) (hj : j < 1024) : slotAt (fillCluster (formattedVolume p) c
      (directorySector (BitVec.ofNat 32 c)) d)
        (clusterToLba (formattedVolume p) (BitVec.ofNat 32 c)) j =
        (directorySector (BitVec.ofNat 32 c) (j / 16)).slice (j % 16 * 32) 32 := by
    have hlt : j / 16 < (formattedVolume p).sectorsPerCluster.toNat := by
      rw [formatted_sectorsPerCluster]
      omega
    unfold slotAt
    rw [hmounted.clusterToLba_eq hc, fillCluster_sector hmounted hc hlt]
  have hfirst : slotAt (fillCluster (formattedVolume p) c (directorySector (BitVec.ofNat 32 c)) d)
      (clusterToLba (formattedVolume p) (BitVec.ofNat 32 c)) 0 =
        setDirEntry [0x2E#8] [] attrDirectory (BitVec.ofNat 32 c) 0#32 := by
    rw [hslot 0 (by omega)]
    simp only [directorySector, dotSector, Nat.zero_div, Nat.zero_mod, Nat.zero_mul, if_true]
    rw [Buffer.slice_paste_of_apart (by omega) (by omega), Buffer.slice_paste_self (by omega)]
  have hsecond : slotAt (fillCluster (formattedVolume p) c (directorySector (BitVec.ofNat 32 c)) d)
      (clusterToLba (formattedVolume p) (BitVec.ofNat 32 c)) 1 =
        setDirEntry [0x2E#8, 0x2E#8] [] attrDirectory 0#32 0#32 := by
    rw [hslot 1 (by omega)]
    simp only [directorySector, dotSector, Nat.reduceDiv, Nat.reduceMod, Nat.one_mul, if_true]
    rw [Buffer.slice_paste_self (by omega)]
  have hrest (j : ℕ) (hj : 2 ≤ j) (hj' : j < 1024) : slotEnded (slotAt
      (fillCluster (formattedVolume p) c (directorySector (BitVec.ofNat 32 c)) d)
        (clusterToLba (formattedVolume p) (BitVec.ofNat 32 c)) j) = true := by
    rw [hslot j hj', slotEnded, decide_eq_true_eq, Buffer.byte_slice (by omega)]
    unfold directorySector dotSector
    split_ifs with hzero
    · rw [Buffer.byte_paste (by omega), if_neg (by omega), Buffer.byte_paste (by omega),
        if_neg (by omega), Buffer.byte_zero]
    · exact Buffer.byte_zero
  generalize fillCluster (formattedVolume p) c _ d = d' at hfirst hsecond hrest ⊢
  refine ⟨[], by simp, by simp, ?_⟩
  rw [List.append_nil]
  refine ⟨by change 2 ≤ 16 * 64; omega, fun i a hi => ?_, fun a ha => ?_, hrest⟩
  · rcases i with _ | _ | i
    · exact hfirst.trans (Option.some.inj hi)
    · exact hsecond.trans (Option.some.inj hi)
    · exact absurd hi (by simp [Dir.dots])
  · simp only [Dir.dots, List.mem_cons, List.not_mem_nil, or_false] at ha
    rcases ha with rfl | rfl
    · simp [slotEnded, setDirEntry_first_ne]
    · simp [slotEnded, setDirEntry_first_ne]

/-- What earlier calls have made lies in front of the first free cluster. -/
theorem Stores.in_front (h : Stores p d next l) {o o' : Made} (ho' : o' ∈ l) (ho : o.first = next) :
    Disjoint o'.clusters o.clusters ∧
      (next < 65536 → o'.call.dir ≠ .cluster (BitVec.ofNat 32 o.first)) := by
  constructor
  · refine Set.disjoint_left.mpr fun c hc hc' => ?_
    have hpos : 0 < o'.call.clusters := by
      have := hc.1.trans_lt hc.2
      omega
    have hnext := h.bounds o' ho' hpos
    have := hc'.1
    have := hc.2
    omega
  · intro hlt
    rcases h.dirs o' ho' with hroot | ⟨o'', ho'', hmkdir, hdir⟩
    · rw [hroot]
      exact Dir.noConfusion
    · have hclusters := o''.call.clusters_of_isMkdir hmkdir
      obtain ⟨-, hnext⟩ := h.bounds o'' ho'' (by omega)
      intro heq
      have heq' := congrArg BitVec.toNat (Dir.cluster.inj (hdir.symm.trans heq))
      rw [BitVec.toNat_ofNat, BitVec.toNat_ofNat, Nat.mod_eq_of_lt (by omega),
        Nat.mod_eq_of_lt (by omega)] at heq'
      omega

/-- What storing leaves: earlier calls have lost nothing, and what the call makes is ready, or
there were too few free clusters. -/
def StoreOutcome (p : U32) (d : Disk) (next : ℕ) (l : List Made) (call : Call)
    (stored : Option U32) : Prop :=
  ∃ next' ≥ next, Stores p d next' l ∧
    ((stored = none ∧ 65536 < next + call.clusters) ∨
      ∃ first, stored = some (BitVec.ofNat 32 first) ∧ next' = next + call.clusters ∧
        Ready p d next' l ⟨call, first⟩)

/-- `fat16_mkdir_root` takes the first free cluster, or there is none. -/
theorem Stores.storeDirectory (h : Stores p s.dev next l) (hvol : s.vol = formattedVolume p)
    (hmkdir : call.isMkdir = true) (hr : storeDirectory s = (stored, s')) :
    StoreOutcome p s'.dev next l call stored := by
  have hmounted := formattedVolume_mounted p
  have hclusters := call.clusters_of_isMkdir hmkdir
  have htwo := h.used.two_le
  have hbytes : s.vol.bytesPerSector.toNat ≤ 512 := by rw [hvol, formatted_bytesPerSector]
  have hframe : ChangesOnly (formattedVolume p) (clustersFrom next) s.dev s'.dev := by
    rw [← hvol] at hmounted ⊢
    refine storeDirectory_changesOnly hmounted ?_ (.inl hbytes) hr
    rw [hvol]
    exact h.used.freeIn le_rfl
  rcases storeDirectory_cases hr with ⟨rfl, halloc⟩ | ⟨cluster, s₁, halloc, hne, rfl, rfl⟩
  · rcases h.used.alloc hvol halloc with ⟨-, rfl, hfull⟩ | ⟨hzero, hlt, -⟩
    · exact ⟨next, le_rfl, h, .inl ⟨rfl, by omega⟩⟩
    · bv_omega
  · rcases h.used.alloc hvol halloc with ⟨hzero, -⟩ | ⟨rfl, hlt, rfl⟩
    · exact absurd hzero hne
    have haddr := formatted_addressable p hlt
    have htoNat : (BitVec.ofNat 32 next).toNat = next := by
      rw [BitVec.toNat_ofNat, Nat.mod_eq_of_lt (by omega)]
    dsimp only at hframe ⊢
    rw [hvol, htoNat] at hframe ⊢
    have htable :=
      dirHolds_fillCluster (p := p) htwo (putEntry (formattedVolume p) next 0xFFFF#16 s.dev)
    have hused := (h.used.take hlt).sameFat (hmounted.sameFat_fillCluster haddr htwo
      (directorySector (BitVec.ofNat 32 next)) _)
    have hend : entryAt (formattedVolume p) (fillCluster (formattedVolume p) next
        (directorySector (BitVec.ofNat 32 next))
          (putEntry (formattedVolume p) next 0xFFFF#16 s.dev)) 0 next = 0xFFFF#16 := by
      have hfats : 0 < (formattedVolume p).numFats.toNat := by
        rw [formatted_numFats]
        omega
      rw [(hmounted.sameFat_fillCluster haddr htwo _ _).entryAt_eq hfats haddr,
        entryAt_putEntry_self hmounted haddr hfats]
    generalize fillCluster (formattedVolume p) next _ _ = d' at hframe htable hused hend ⊢
    refine ⟨next + 1, by omega, h.frame hframe hused (by omega), .inr ⟨next, rfl, by omega, ?_⟩⟩
    refine ⟨fun hempty => absurd (hempty.symm.trans hclusters) (by decide), fun _ => ⟨htwo, ?_⟩,
      fun o' ho' => (h.in_front ho' rfl).1, fun i hi => ?_, fun i hi => ?_, fun _ => htable,
      fun _ o' ho' => (h.in_front ho' rfl).2 hlt⟩
    · change next + call.clusters ≤ next + 1
      omega
    · change i < call.clusters at hi
      change entryAt _ _ 0 (next + i) = chainLink next call.clusters i
      obtain rfl : i = 0 := by omega
      rw [Nat.add_zero, hend, chainLink, if_pos (by omega)]
    · rw [call.clustersFor_size.2 (i.zero_le.trans_lt hi)] at hmkdir
      exact absurd hmkdir (by decide)

/-- A file is stored in as many clusters as it needs, or it runs out of free clusters. -/
theorem Stores.storeFile (h : Stores p s.dev next l) (hvol : s.vol = formattedVolume p)
    (hfile : call.isMkdir = false) (hr : storeFile disk call.data call.size s = some (stored, s')) :
    StoreOutcome p s'.dev next l call stored := by
  have hmounted := formattedVolume_mounted p
  have hclusters := (Call.store_of_file (s := s) hfile).1
  have htwo := h.used.two_le
  have hbytes : s.vol.bytesPerSector.toNat ≤ 512 := by rw [hvol, formatted_bytesPerSector]
  have hfats : 0 < s.vol.numFats.toNat := by
    rw [hvol, formatted_numFats]
    omega
  have hframe : ChangesOnly (formattedVolume p) (clustersFrom next) s.dev s'.dev := by
    rw [← hvol] at hmounted ⊢
    refine storeFile_changesOnly hmounted hfats ?_ (.inl hbytes) hr
    rw [hvol]
    exact h.used.freeIn le_rfl
  rcases storeFile_cases hr with ⟨hsize, rfl, rfl⟩ | ⟨hsize, rfl, halloc⟩ |
    ⟨hsize, cluster, s₁, ok, halloc, hne, hwrite, rfl⟩
  · -- Without data nothing is stored.
    have hnone : clustersFor call.size = 0 := by rw [hsize]; decide
    have hempty : call.clusters = 0 := hclusters.trans hnone
    refine ⟨next, le_rfl, h, .inr ⟨0, rfl, by omega, ?_⟩⟩
    refine ⟨fun _ => rfl, fun hpos => ?_, fun o' _ => ?_, fun i hi => ?_, fun i hi => ?_,
      fun hmkdir => ?_, fun hmkdir => ?_⟩
    · exact absurd hpos (by simp [hempty])
    · simp [Made.clusters, hempty]
    · exact absurd hi (by simp [hempty])
    · exact absurd hi (by simp [hnone])
    · exact absurd (hmkdir.symm.trans hfile) (by decide)
    · exact absurd (hmkdir.symm.trans hfile) (by decide)
  · have hpos : 0 < clustersFor call.size := by
      unfold clustersFor
      bv_omega
    rcases h.used.alloc hvol halloc with ⟨-, rfl, hfull⟩ | ⟨hzero, hlt, -⟩
    · exact ⟨next, le_rfl, h, .inl ⟨rfl, by omega⟩⟩
    · bv_omega
  · rcases h.used.alloc hvol halloc with ⟨hzero, -⟩ | ⟨rfl, hlt, rfl⟩
    · exact absurd hzero hne
    have hrest : remainingAt call.size 0 = call.size := BitVec.sub_zero _
    have hpos : 0 < call.size.toNat := by bv_omega
    have hloop : writeClusters disk call.data (2 ^ 32) (BitVec.ofNat 32 (next + 0))
        (BitVec.ofNat 32 (32768 * 0)) (remainingAt call.size 0)
        { s with dev := putEntry (formattedVolume p) next 0xFFFF#16 s.dev } = some (ok, s') := by
      rw [hrest]
      exact hwrite
    have hspec :=
      writeClusters_spec (j := 0) (s := { s with dev := putEntry _ next 0xFFFF#16 s.dev })
      hvol htwo hpos (h.used.take hlt) hloop
    rcases hspec with ⟨rfl, hused, hstored⟩ | ⟨rfl, hused, hfull⟩
    · refine ⟨next + call.clusters, by omega, h.frame hframe (hclusters ▸ hused) (by omega),
        .inr ⟨next, rfl, rfl, ?_⟩⟩
      refine ⟨fun hempty => ?_, fun _ => ⟨htwo, le_rfl⟩, fun o' ho' => (h.in_front ho' rfl).1,
        fun i hi => ?_, fun i hi => (hstored i (by omega) hi).sector, fun hmkdir => ?_,
        fun hmkdir => ?_⟩
      · change call.clusters = 0 at hempty
        unfold clustersFor at hclusters
        omega
      · rw [hclusters] at hi ⊢
        exact (hstored i (by omega) hi).link
      · exact absurd (hmkdir.symm.trans hfile) (by decide)
      · exact absurd (hmkdir.symm.trans hfile) (by decide)
    · exact ⟨65536, h.used.le, h.frame hframe hused h.used.le, .inl ⟨rfl, by omega⟩⟩

/-- A call stores what it makes behind the clusters in use, or it runs out of free clusters. -/
theorem Stores.store (h : Stores p s.dev next l) (hvol : s.vol = formattedVolume p)
    (hr : call.store s = some (stored, s')) : StoreOutcome p s'.dev next l call stored := by
  cases hmkdir : call.isMkdir with
  | true =>
    rw [Call.store_of_isMkdir hmkdir] at hr
    exact h.storeDirectory hvol hmkdir (Option.some.inj hr)
  | false =>
    rw [(Call.store_of_file hmkdir).2] at hr
    exact h.storeFile hvol hmkdir hr

/-! ### Calls -/

/-- The volume is mounted where it was formatted. -/
structure MountedAt (p : U32) (s : Fat16 Disk) : Prop where
  vol : s.vol = formattedVolume p
  mounted : s.mounted = true

/-- What a call can do: fail, or add what it makes. -/
theorem Stores.step {result : Result} (h : Stores p s.dev next l) (hm : MountedAt p s)
    (hdir : IsDir l call.dir) (hr : call.run disk s = some (result, s')) :
    MountedAt p s' ∧ ((result = .failed ∧ ∃ next' ≥ next, Stores p s'.dev next' l ∧
        (65536 < next + call.clusters ∨ next' = next + call.clusters ∧
          16 * call.dir.sectors (formattedVolume p) ≤
            (call.dir.dots ++ liveEntries call.dir l).length)) ∨
      ∃ first, result = call.success (BitVec.ofNat 32 first) ∧
        Stores p s'.dev (next + call.clusters) (l ++ [⟨call, first⟩])) := by
  have hmounted : MountedVolume s.vol := by
    rw [hm.vol]
    exact formattedVolume_mounted p
  obtain ⟨stored, s₁, hstore, hend⟩ := Call.run_cases hmounted hm.mounted hr
  have hfollows := Call.store_follows hstore
  have hvol : s₁.vol = formattedVolume p := hfollows.vol.trans hm.vol
  have hm₁ : s₁.mounted = true := hfollows.mounted.trans hm.mounted
  obtain ⟨next', hle, hstores, hready⟩ := h.store hm.vol hstore
  rcases hend with ⟨rfl, rfl, rfl⟩ | ⟨cluster, -, rfl, rfl, hused⟩ |
    ⟨cluster, i, rfl, rfl, hi, husable, hfirst, rfl⟩
  · refine ⟨⟨hvol, hm₁⟩, .inl ⟨rfl, next', hle, hstores, hready.imp ?_ ?_⟩⟩
    · exact fun hnone => hnone.2
    · rintro ⟨_, hsome, _⟩
      exact absurd hsome (by simp)
  · refine ⟨⟨hvol, hm₁⟩, .inl ⟨rfl, next', hle, hstores, hready.imp ?_ ?_⟩⟩
    · exact fun hnone => hnone.2
    · rintro ⟨_, _, hnext, _⟩
      rw [hvol, call.base_eq, call.sectors_eq] at hused
      exact ⟨hnext, (hstores.table _ hdir).full hused⟩
  · refine ⟨⟨hvol, hm₁⟩, .inr ?_⟩
    rcases hready with ⟨hnone, -⟩ | ⟨first, hsome, rfl, hready⟩
    · exact absurd hnone (by simp)
    · obtain rfl := Option.some.inj hsome
      rw [hvol, call.base_eq, call.sectors_eq] at *
      exact ⟨first, rfl, hstores.add hready hdir hi husable hfirst⟩

/-- A call succeeds while there are free clusters and free slots. -/
theorem Stores.succeeds (h : Stores p s.dev next l) (hm : MountedAt p s) (call : Call)
    (hdir : IsDir l call.dir) (hroom : next + call.clusters ≤ 65536)
    (hslots : (call.dir.dots ++ liveEntries call.dir l).length <
      16 * call.dir.sectors (formattedVolume p)) :
    ∃ first s', call.run disk s = some (call.success (BitVec.ofNat 32 first), s') ∧ MountedAt p s' ∧
      Stores p s'.dev (next + call.clusters) (l ++ [⟨call, first⟩]) := by
  have hmounted : MountedVolume s.vol := by
    rw [hm.vol]
    exact formattedVolume_mounted p
  obtain ⟨⟨result, s'⟩, hr⟩ := call.ends (a := disk) (s := s) hmounted
  obtain ⟨hm', ⟨-, next', -, -, hfull⟩ | ⟨first, rfl, hstores⟩⟩ := h.step hm hdir hr
  · omega
  · exact ⟨first, s', hr, hm', hstores⟩

end

/-! ### Runs -/

/-- What the call has reported. -/
def Made.report (o : Made) : Call × Result := (o.call, o.call.success (BitVec.ofNat 32 o.first))

/-- The calls that returned 1. -/
def succeeded (log : List (Call × Result)) : List (Call × Result) :=
  log.filter fun r => r.2 ≠ .failed

/-- The root directory, or one that `fat16_mkdir_root` has returned. -/
def Known (log : List (Call × Result)) (dir : Dir) : Prop :=
  dir = .root ∨ ∃ call c, (call, Result.directory c) ∈ log ∧ dir = .cluster c

/-- A run of calls with what each has reported. Which calls may follow is a parameter. -/
inductive CallRun (ok : List (Call × Result) → Call → Prop) (s₀ : Fat16 Disk) :
    Fat16 Disk → List (Call × Result) → Prop
  | start : CallRun ok s₀ s₀ []
  | call {s s' : Fat16 Disk} {log : List (Call × Result)} {call : Call} {result : Result} :
      CallRun ok s₀ s log → ok log call → call.run disk s = some (result, s') →
        CallRun ok s₀ s' (log ++ [(call, result)])

/-- Any call may follow. -/
def AnyCall (_ : List (Call × Result)) (_ : Call) : Prop := True

/-- The call is on a known directory. -/
def OnKnown (log : List (Call × Result)) (call : Call) : Prop := Known log call.dir

section

variable {p count : U32} {s₀ s s' : Fat16 Disk} {log : List (Call × Result)} {l : List Made}
  {ok : List (Call × Result) → Call → Prop} {dir : Dir}

/-- Only the calls that make a directory report one. -/
theorem Call.success_eq_directory {call : Call} {cluster c : U32}
    (h : call.success cluster = .directory c) : call.isMkdir = true ∧ cluster = c := by
  cases call with
  | mkdirRoot name ext => exact ⟨rfl, Result.directory.inj h⟩
  | createFileRoot name ext data size => exact Result.noConfusion h
  | createFileInDir dirCluster name ext data size => exact Result.noConfusion h

/-- The known directories are those that were made. -/
theorem Known.isDir (hlog : succeeded log = l.map Made.report) (h : Known log dir) :
    IsDir l dir := by
  rcases h with rfl | ⟨call, c, hmem, rfl⟩
  · exact .inl rfl
  · have hreport : (call, Result.directory c) ∈ l.map Made.report := by
      rw [← hlog]
      exact List.mem_filter.mpr ⟨hmem, by simp⟩
    obtain ⟨o, ho, heq⟩ := List.mem_map.mp hreport
    obtain ⟨hmkdir, hfirst⟩ := Call.success_eq_directory (Prod.mk.inj heq).2
    exact .inr ⟨o, ho, hmkdir, by rw [hfirst]⟩

/-- A fresh volume is mounted where it was formatted, and stores nothing. -/
theorem stores_fresh {d : Disk} (hformat : fat16Format disk p count d = (true, s.dev))
    (hmount : fat16Mount disk p s = (true, s₀)) : MountedAt p s₀ ∧ Stores p s₀.dev 2 [] := by
  obtain ⟨hdev, -⟩ := fat16Format_disk hformat
  have hboot : s.dev p = bootSector p count := by rw [hdev, formattedDisk_boot]
  obtain rfl := (Prod.mk.inj (hmount.symm.trans (fat16Mount_formatted hboot))).2
  refine ⟨⟨rfl, rfl⟩, ?_⟩
  rw [hdev]
  exact .formatted

/-- After a run on known directories the disk has what its successful calls have made. -/
theorem CallRun.stores (h : CallRun ok s₀ s log) (hok : ∀ log call, ok log call → OnKnown log call)
    (hm : MountedAt p s₀) (hs₀ : Stores p s₀.dev 2 []) : MountedAt p s ∧
      ∃ next l, Stores p s.dev next l ∧ succeeded log = l.map Made.report := by
  induction h with
  | start => exact ⟨hm, 2, [], hs₀, rfl⟩
  | @call s s' log call result _ hcall hr ih =>
    obtain ⟨hm, next, l, hstores, hlog⟩ := ih
    have hdir := (hok _ _ hcall).isDir hlog
    obtain ⟨hm', ⟨rfl, next', -, hstores', -⟩ | ⟨first, rfl, hstores'⟩⟩ := hstores.step hm hdir hr
    · refine ⟨hm', next', l, hstores', ?_⟩
      rw [← hlog, succeeded, List.filter_append]
      simp [succeeded]
    · refine ⟨hm', _, _, hstores', ?_⟩
      rw [List.map_append, ← hlog, succeeded, List.filter_append]
      simp [succeeded, call.success_ne_failed, Made.report]

end

end AlderKernel.Fs
