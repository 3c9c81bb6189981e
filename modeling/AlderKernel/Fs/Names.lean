import AlderKernel.Fs.FileRuns

/-!
# Names in a directory

A directory holds the entries of the successful calls on it, in their order, with the names that
`copy_padded` has made of the arguments. Nothing compares a new name with those already there, and
lookup takes the first entry that matches.
-/

namespace AlderKernel.Fs

open Machine SlotTable

/-- `fat16_find_in_root` or `fat16_find_in_dir`. -/
def Dir.find {σ : Type} (a : Ata σ) (dir : Dir) (name ext : List U8) (s : Fat16 σ) :
    Option Dirent × Fat16 σ :=
  match dir with
  | .root => fat16FindInRoot a name ext s
  | .cluster c => fat16FindInDir a c name ext s

/-- The successful calls on a directory whose names do not mark a deleted slot. -/
def callsOn (log : List (Call × Result)) (dir : Dir) : List Call :=
  ((succeeded log).map Prod.fst).filter fun call => call.dir = dir ∧ call.live

/-- The name field that a call gives its entry. -/
def Call.nameField (call : Call) : List U8 := paddedName call.name call.ext

section

variable {p count : U32} {d : Disk} {s₀ s s' : Fat16 Disk} {log : List (Call × Result)}
  {l : List Made} {dir : Dir} {next : ℕ} {call : Call} {name ext : List U8} {result : Result}

/-- Lookup gives the first entry that `names_equal` accepts. -/
theorem Dir.find_disk (hm : s.mounted = true) : dir.find disk name ext s =
    (((dir.entries s.vol s.dev).find? fun e => namesEqual e name ext).map fillDirent, s) := by
  cases dir with
  | root => exact fat16FindInRoot_disk hm
  | cluster c => exact fat16FindInDir_disk hm

/-- A new entry is skipped by listing and lookup only when its name marks a deleted slot. -/
theorem slotSkipped_setDirEntry {attr : U8} {cluster size : U32} (hattr : attr ≠ 0x0F#8) :
    slotSkipped (setDirEntry name ext attr cluster size) = decide (name.head? = some 0xE5#8) := by
  simp [slotSkipped, setDirEntry_first_deleted, setDirEntry_attr, hattr]

/-- No call makes an entry with the attributes of a long name. -/
theorem Call.attr_ne (call : Call) : call.attr ≠ 0x0F#8 := by
  cases call <;> simp [attr, attrDirectory, attrFile]

/-- Listing and lookup see the entries of the calls on a directory. -/
theorem Stores.entries_eq (h : Stores p d next l) (hdir : IsDir l dir) :
    dir.entries (formattedVolume p) d = dir.dots ++ liveEntries dir l := by
  obtain ⟨tail, -, hdeleted, hslots⟩ := h.table dir hdir
  have htail : tail.filter (fun e => !slotSkipped e) = [] := by
    rw [List.filter_eq_nil_iff]
    intro e he
    simp [slotSkipped, hdeleted e he]
  unfold Dir.entries shownFrom
  rw [hslots.liveFrom_eq, List.filter_append, htail, List.append_nil, List.filter_eq_self]
  intro e he
  rcases List.mem_append.mp he with hdot | hlive
  · cases dir with
    | root => exact absurd hdot List.not_mem_nil
    | cluster c =>
      simp only [Dir.dots, List.mem_cons, List.not_mem_nil, or_false] at hdot
      rcases hdot with rfl | rfl
      · simp [slotSkipped_setDirEntry (show attrDirectory ≠ 0x0F#8 by decide)]
      · simp [slotSkipped_setDirEntry (show attrDirectory ≠ 0x0F#8 by decide)]
  · obtain ⟨o, ho, rfl⟩ := List.mem_map.mp hlive
    have hlive := (of_decide_eq_true (List.mem_filter.mp ho).2).2
    rw [Made.entry, Call.entry_eq, slotSkipped_setDirEntry o.call.attr_ne]
    simpa [Call.live] using hlive

/-- The calls on a directory, in terms of what they have made. -/
theorem callsOn_eq (hlog : succeeded log = l.map Made.report) :
    callsOn log dir = (l.filter fun o => o.call.dir = dir ∧ o.call.live).map Made.call := by
  unfold callsOn
  rw [hlog, List.map_map, List.filter_map]
  rfl

/-- The name fields of the entries are those of the calls. -/
theorem nameField_entries (hlog : succeeded log = l.map Made.report) :
    (liveEntries dir l).map nameField = (callsOn log dir).map Call.nameField := by
  rw [callsOn_eq hlog, liveEntries, List.map_map, List.map_map]
  apply List.map_congr_left
  intro o _
  change nameField (o.call.entry _) = paddedName o.call.name o.call.ext
  rw [Call.entry_eq, nameField_setDirEntry]

/-- The name fields of a directory are those of '.' and '..' in a subdirectory, and then those of
the successful calls on it. They are different when those are, and lookup finds the first entry
that `names_equal` accepts. -/
theorem names_of_calls (hformat : fat16Format disk p count d = (true, s.dev))
    (hmount : fat16Mount disk p s = (true, s₀)) (hrun : CallRun OnKnown s₀ s' log)
    (hdir : Known log dir) :
    (dir.entries s'.vol s'.dev).map nameField =
        dir.dots.map nameField ++ (callsOn log dir).map Call.nameField ∧
      (((dir.entries s'.vol s'.dev).map nameField).Nodup ↔
        (dir.dots.map nameField ++ (callsOn log dir).map Call.nameField).Nodup) ∧
      ∀ name ext, (dir.find disk name ext s').1 =
        ((dir.entries s'.vol s'.dev).find? fun e => namesEqual e name ext).map fillDirent := by
  obtain ⟨hm₀, hs₀⟩ := stores_fresh hformat hmount
  obtain ⟨hm, next, l, hstores, hlog⟩ := hrun.stores (fun _ _ h => h) hm₀ hs₀
  have hnames : (dir.entries s'.vol s'.dev).map nameField =
      dir.dots.map nameField ++ (callsOn log dir).map Call.nameField := by
    rw [hm.vol, hstores.entries_eq (hdir.isDir hlog), List.map_append, nameField_entries hlog]
  refine ⟨hnames, by rw [hnames], fun name ext => ?_⟩
  rw [Dir.find_disk hm.mounted]

/-- What lookup does after a successful call on a directory where it has found nothing. -/
theorem Stores.find_created (h : Stores p s.dev next l) (hm : MountedAt p s)
    (hdir : IsDir l call.dir) (hlive : call.live = true)
    (hnone : (call.dir.find disk call.name call.ext s).1 = none)
    (hr : call.run disk s = some (result, s')) (hok : result ≠ .failed) :
    ∃ cluster, result = call.success cluster ∧
      call.dir.entries s'.vol s'.dev = call.dir.entries s.vol s.dev ++ [call.entry cluster] ∧
      (call.dir.find disk call.name call.ext s').1 =
        if NoSmallLetter call.name call.ext then some
          ⟨shownName 8 call.name, shownName 3 call.ext, call.attr, cluster, call.size⟩
        else none := by
  obtain ⟨hm', ⟨hfailed, -⟩ | ⟨first, hresult, hstores⟩⟩ := h.step hm hdir hr
  · exact absurd hfailed hok
  have hfirst := hstores.first_lt (List.mem_append_right l (List.mem_singleton_self _))
  have hentries : call.dir.entries s'.vol s'.dev =
      call.dir.entries s.vol s.dev ++ [call.entry (BitVec.ofNat 32 first)] := by
    rw [hm'.vol, hm.vol, hstores.entries_eq hdir.concat, h.entries_eq hdir, liveEntries_concat,
      if_pos ⟨rfl, hlive⟩, List.append_assoc]
    rfl
  refine ⟨_, hresult, hentries, ?_⟩
  rw [Dir.find_disk hm.mounted, Option.map_eq_none_iff] at hnone
  have hcluster : (BitVec.ofNat 32 first).toNat < 2 ^ 16 := by
    rw [BitVec.toNat_ofNat]
    exact (Nat.mod_le _ _).trans_lt hfirst
  have hequal : NoSmallLetter call.name call.ext ↔ namesEqual (setDirEntry call.name call.ext
      call.attr (BitVec.ofNat 32 first) call.size) call.name call.ext = true :=
    namesEqual_setDirEntry.symm
  rw [Dir.find_disk hm'.mounted, hentries, List.find?_append, hnone, Option.none_or, Call.entry_eq,
    List.find?_cons, ← fillDirent_setDirEntry hcluster, if_congr hequal rfl rfl]
  cases namesEqual (setDirEntry call.name call.ext call.attr (BitVec.ofNat 32 first) call.size)
    call.name call.ext with
  | true => simp
  | false => simp

/-- What is created can be found exactly when no small letter goes to its name field. For every
state that calls reach on a fresh volume, every call that returns 1 on a known directory where
lookup of its name finds nothing, and whose name does not mark a deleted slot: the new entry is
behind the others, and lookup returns it if and only if the characters it takes from the name and
the extension have no small letter among them. -/
theorem created_found_iff {sf : Fat16 Disk} (hformat : fat16Format disk p count d = (true, sf.dev))
    (hmount : fat16Mount disk p sf = (true, s₀)) (hrun : CallRun OnKnown s₀ s log)
    (hdir : Known log call.dir) (hlive : call.live = true)
    (hnone : (call.dir.find disk call.name call.ext s).1 = none)
    (hr : call.run disk s = some (result, s')) (hok : result ≠ .failed) :
    ∃ cluster, result = call.success cluster ∧
      call.dir.entries s'.vol s'.dev = call.dir.entries s.vol s.dev ++ [call.entry cluster] ∧
      ((call.dir.find disk call.name call.ext s').1 = some
          ⟨shownName 8 call.name, shownName 3 call.ext, call.attr, cluster, call.size⟩ ↔
        NoSmallLetter call.name call.ext) := by
  obtain ⟨hm₀, hs₀⟩ := stores_fresh hformat hmount
  obtain ⟨hm, next, l, hstores, hlog⟩ := hrun.stores (fun _ _ h => h) hm₀ hs₀
  obtain ⟨cluster, hresult, hentries, hfind⟩ :=
    hstores.find_created hm (hdir.isDir hlog) hlive hnone hr hok
  refine ⟨cluster, hresult, hentries, ?_⟩
  rw [hfind]
  simp

end

/-! ### On an empty disk -/

/-- A formatted disk that was empty before, not mounted yet. -/
def emptyStart : Fat16 Disk where
  vol := formattedVolume 0#32
  mounted := false
  dev := formattedDisk 2048#32 297952#32 fun _ => .zero
  overrun := false

/-- The state after it is mounted. -/
def emptyMounted : Fat16 Disk := { emptyStart with vol := formattedVolume 2048#32, mounted := true }

/-- A call that makes a file without data in the root directory. -/
def touch (name : List U8) : Call := .createFileRoot name [] (fun _ => 0#8) 0#32

/-- The empty volume is freshly formatted and mounted. -/
theorem emptyMounted_fresh :
    fat16Format disk 2048#32 297952#32 (fun _ => .zero) = (true, emptyStart.dev) ∧
      fat16Mount disk 2048#32 emptyStart = (true, emptyMounted) := by
  have hdev : emptyStart.dev = formattedDisk 2048#32 297952#32 fun _ => .zero := rfl
  have hboot : emptyStart.dev 2048#32 = bootSector 2048#32 297952#32 := by
    rw [hdev, formattedDisk_boot]
  refine ⟨?_, fat16Mount_formatted hboot⟩
  rw [hdev]
  exact fat16Format_of_admitted _ _ (by simp [Admitted]) _

/-- The empty volume holds no file. -/
theorem emptyMounted_stores : MountedAt 2048#32 emptyMounted ∧
    Stores 2048#32 emptyMounted.dev 2 [] :=
  stores_fresh emptyMounted_fresh.1 emptyMounted_fresh.2

/-- After less than 510 calls there is a free slot in every directory. -/
theorem entries_lt {p : U32} {dir : Dir} {l : List Made} (hl : l.length < 510) :
    (dir.dots ++ liveEntries dir l).length < 16 * dir.sectors (formattedVolume p) := by
  have hfilter := l.length_filter_le fun o => o.call.dir = dir ∧ o.call.live
  rw [List.length_append, liveEntries, List.length_map]
  cases dir with
  | root =>
    change 0 + _ < 16 * 32
    omega
  | cluster c =>
    change 2 + _ < 16 * 64
    omega

/-- A file without data can be made while the root directory has a free slot. -/
theorem touch_succeeds {p : U32} {s : Fat16 Disk} {next : ℕ} {l : List Made} (name : List U8)
    (h : Stores p s.dev next l) (hm : MountedAt p s) (hl : l.length < 510) :
    ∃ first s', (touch name).run disk s = some (.file, s') ∧ MountedAt p s' ∧
      Stores p s'.dev next (l ++ [⟨touch name, first⟩]) := by
  have hle := h.used.le
  have hnone : (touch name).clusters = 0 := by simp [touch, Call.clusters, clustersFor]
  have hsucceeds := h.succeeds hm (touch name) (.inl rfl) (by omega) (entries_lt hl)
  rwa [hnone, Nat.add_zero] at hsucceeds

/-- The address of a cluster repeats after `2 ^ 26` clusters, so that another number reaches the
same directory. -/
theorem run_alias {p dirCluster size : U32} {name ext : List U8} {data : U32 → U8} {s : Fat16 Disk}
    (hm : MountedAt p s) :
    (Call.createFileInDir (dirCluster + 67108864#32) name ext data size).run disk s =
      (Call.createFileInDir dirCluster name ext data size).run disk s := by
  have hmounted : MountedVolume s.vol := by
    rw [hm.vol]
    exact formattedVolume_mounted p
  have hlba : clusterToLba (formattedVolume p) (dirCluster + 67108864#32) =
      clusterToLba (formattedVolume p) dirCluster := by
    change _ + (dirCluster + 67108864#32 - 2#32) * 64#32 = _ + (dirCluster - 2#32) * 64#32
    bv_omega
  rw [Call.run_disk hmounted hm.mounted, Call.run_disk hmounted hm.mounted, Call.store, Call.store]
  cases hstore : storeFile disk data size s with
  | none => simp
  | some r =>
    obtain ⟨stored, s₁⟩ := r
    have hvol : s₁.vol = formattedVolume p := (storeFile_follows hstore).vol.trans hm.vol
    cases stored with
    | none => simp [Call.finish]
    | some cluster =>
      simp only [Option.map_some, Call.finish, Call.base, Call.entry, Call.sectors, Call.success,
        hvol, hlba]

/-- A call that makes a directory. -/
def makeDir : Call := .mkdirRoot [0x44#8] []

/-- A call that makes a file without data in a directory. -/
def touchIn (dirCluster : U32) : Call := .createFileInDir dirCluster [0x41#8] [] (fun _ => 0#8) 0#32

/-- Two calls with one name succeed, and their entries have one name field; so do two calls whose
arguments name one directory by different numbers. -/
theorem sameName_twice :
    (∃ s', CallRun OnKnown emptyMounted s' [(touch [0x41#8], .file), (touch [0x41#8], .file)] ∧
      ¬ ((Dir.root.entries s'.vol s'.dev).map nameField).Nodup) ∧
    ∃ c s', CallRun AnyCall emptyMounted s' [(makeDir, .directory c), (touchIn c, .file),
        (touchIn (c + 67108864#32), .file)] ∧
      ¬ (((Dir.cluster c).entries s'.vol s'.dev).map nameField).Nodup := by
  obtain ⟨hm₀, hs₀⟩ := emptyMounted_stores
  constructor
  · obtain ⟨f₁, s₁, hr₁, hm₁, hs₁⟩ := touch_succeeds [0x41#8] hs₀ hm₀ (by simp)
    obtain ⟨f₂, s₂, hr₂, hm₂, hs₂⟩ := touch_succeeds [0x41#8] hs₁ hm₁ (by simp)
    refine ⟨s₂, .call (.call .start (.inl rfl) hr₁) (.inl rfl) hr₂, ?_⟩
    rw [hm₂.vol, hs₂.entries_eq (.inl rfl)]
    simp [Dir.dots, liveEntries, touch, Call.dir, Call.live, Call.name, Made.entry, Call.entry,
      nameField_setDirEntry]
  · have hzero : clustersFor 0#32 = 0 := by decide
    obtain ⟨f, s₁, hr₁, hm₁, hs₁⟩ :=
      hs₀.succeeds hm₀ makeDir (.inl rfl) (by decide) (entries_lt (by simp))
    have hdir₁ : IsDir [⟨makeDir, f⟩] (.cluster (BitVec.ofNat 32 f)) := .inr ⟨_, .head _, rfl, rfl⟩
    have hle₁ := hs₁.used.le
    obtain ⟨f₂, s₂, hr₂, hm₂, hs₂⟩ := hs₁.succeeds hm₁ (touchIn (BitVec.ofNat 32 f)) hdir₁ hle₁
      (entries_lt (by simp))
    obtain ⟨f₃, s₃, hr₃, hm₃, hs₃⟩ :=
      hs₂.succeeds hm₂ (touchIn (BitVec.ofNat 32 f)) hdir₁.concat hle₁ (entries_lt (by simp))
    rw [touchIn, ← run_alias hm₂] at hr₃
    refine ⟨BitVec.ofNat 32 f, s₃, .call (.call (.call .start trivial hr₁) trivial hr₂) trivial hr₃,
      ?_⟩
    rw [hm₃.vol, hs₃.entries_eq hdir₁.concat.concat]
    simp [Dir.dots, liveEntries, touchIn, makeDir, Call.dir, Call.live, Call.name, Made.entry,
      Call.entry, nameField_setDirEntry]

/-- The names of a run of two calls with different names. -/
theorem touch_names : ∃ s', CallRun OnKnown emptyMounted s'
      [(touch [0x41#8], .file), (touch [0x42#8], .file)] ∧
    (Dir.root.entries s'.vol s'.dev).map nameField =
      [paddedName [0x41#8] [], paddedName [0x42#8] []] ∧
    ((Dir.root.entries s'.vol s'.dev).map nameField).Nodup := by
  obtain ⟨hformat, hmount⟩ := emptyMounted_fresh
  obtain ⟨hm₀, hs₀⟩ := emptyMounted_stores
  obtain ⟨f₁, s₁, hr₁, hm₁, hs₁⟩ := touch_succeeds [0x41#8] hs₀ hm₀ (by simp)
  obtain ⟨f₂, s₂, hr₂, hm₂, hs₂⟩ := touch_succeeds [0x42#8] hs₁ hm₁ (by simp)
  have hrun : CallRun OnKnown emptyMounted s₂ _ :=
    .call (.call .start (.inl rfl) hr₁) (.inl rfl) hr₂
  obtain ⟨hnames, hnodup, -⟩ := names_of_calls hformat hmount hrun (.inl rfl)
  exact ⟨s₂, hrun, hnames, hnodup.mpr (by decide)⟩

/-- Lookup in the empty root directory finds nothing. -/
theorem emptyMounted_find (name : List U8) : ((touch name).dir.find disk (touch name).name
    (touch name).ext emptyMounted).1 = none := by
  obtain ⟨hm₀, hs₀⟩ := emptyMounted_stores
  have hempty : (touch name).dir.entries (formattedVolume 2048#32) emptyMounted.dev = [] :=
    hs₀.entries_eq (.inl rfl)
  rw [Dir.find_disk hm₀.mounted, hm₀.vol, hempty]
  rfl

/-- "readme". -/
def readme : List U8 := [0x72#8, 0x65#8, 0x61#8, 0x64#8, 0x6D#8, 0x65#8]

/-- A name in small letters is not found after it was created. -/
theorem readme_not_found : (Dir.root.find disk readme [] emptyMounted).1 = none ∧
    ∃ s', (touch readme).run disk emptyMounted = some (.file, s') ∧
      (Dir.root.find disk readme [] s').1 = none := by
  obtain ⟨hm₀, hs₀⟩ := emptyMounted_stores
  obtain ⟨f₁, s₁, hr₁, -, -⟩ := touch_succeeds readme hs₀ hm₀ (by simp)
  obtain ⟨cluster, -, -, hfind⟩ := hs₀.find_created hm₀ (.inl rfl) (by decide)
    (emptyMounted_find readme) hr₁ (by decide)
  refine ⟨emptyMounted_find readme, s₁, hr₁, ?_⟩
  rw [if_neg (by decide)] at hfind
  exact hfind

/-- A name in capital letters is found. -/
theorem capital_found : ∃ cluster s', (touch [0x41#8]).run disk emptyMounted = some (.file, s') ∧
    (Dir.root.find disk [0x41#8] [] s').1 = some ⟨[0x41#8], [], attrFile, cluster, 0#32⟩ := by
  obtain ⟨hformat, hmount⟩ := emptyMounted_fresh
  obtain ⟨hm₀, hs₀⟩ := emptyMounted_stores
  obtain ⟨f₁, s₁, hr₁, hm₁, hs₁⟩ := touch_succeeds [0x41#8] hs₀ hm₀ (by simp)
  obtain ⟨cluster, -, -, hfound⟩ := created_found_iff hformat hmount .start (.inl rfl) (by decide)
    (emptyMounted_find [0x41#8]) hr₁ (by decide)
  exact ⟨cluster, s₁, hr₁, hfound.mpr (by decide)⟩

end AlderKernel.Fs
