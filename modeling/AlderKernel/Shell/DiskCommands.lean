import AlderKernel.Shell.FilePrinting

/-!
# Making the disk of the kernel

`mkpart`, `mkfs` and `install` of `kernel/shell/sysinfo_commands.c` with all that they print. On a
drive whose transfers succeed `install` leaves a tree of four directories with three files, whatever
the drive held before.
-/

namespace AlderKernel.Shell

open Machine Drivers Fs Mm

/-- Print, and go on. -/
def printing {α : Type} (calls : List PrintCall) (rest : Option (List PrintCall × α)) :
    Option (List PrintCall × α) :=
  rest.map fun r => (calls ++ r.1, r.2)

section

variable {σ : Type}

/-- `command_mkpart`. -/
def commandMkpart (a : Drive σ) (s : Fat16 σ) : List PrintCall × Fat16 σ :=
  let part := doMkpart a s.dev
  let s := { s with dev := part.2 }
  match part.1 with
  | none =>
    ([.text (chars "Failed to write partition table (no drive, or drive too small).\n")], s)
  | some (start, count) =>
    ([.text (chars "Partition table written: type=0x06 (FAT16) start_lba="), .uint start,
      .text (chars " sectors="), .uint count, .text (chars "\n")], s)

/-- `command_mkfs`: the first slot of type 0x06 is formatted. -/
def commandMkfs (a : Ata σ) (s : Fat16 σ) : List PrintCall × Fat16 σ :=
  let parts := mbrReadPartitions a s.dev
  let s := { s with dev := parts.2 }
  if parts.1.1 = 0 then
    ([.text (chars "No partition table found - run mkpart first.\n")], s) else
  match (List.finRange 4).find? fun i => (parts.1.2 i).type = 0x06#8 with
  | none => ([.text (chars "No FAT16 (type 0x06) partition found.\n")], s)
  | some i =>
    let formatting : List PrintCall := [.text (chars "Formatting partition "),
      .uint (BitVec.ofNat 32 i), .text (chars " as FAT16 ("), .uint (parts.1.2 i).sectorCount,
      .text (chars " sectors)...\n")]
    let fs := fat16Format a (parts.1.2 i).lbaStart (parts.1.2 i).sectorCount s.dev
    let s := { s with dev := fs.2 }
    if fs.1 then (formatting ++ [PrintCall.text (chars "Format complete.\n")], s) else
    (formatting ++ [PrintCall.text
      (chars "Format failed (partition too small or invalid cluster count).\n")], s)

/-- `install_placeholder_file`. -/
def installPlaceholderFile (a : Ata σ) (dirCluster : U32) (name ext content : List U8)
    (s : Fat16 σ) :
    Option (Bool × Fat16 σ) :=
  fat16CreateFileInDir a dirCluster name ext (fun i => content.getD i.toNat 0#8)
    (BitVec.ofNat 32 content.length) s

/-- The content of `/kernel/kernel.elf`. -/
def kernelPlaceholder : List U8 := chars "AlderKernel kernel.elf placeholder - no ELF loader yet.\n"

/-- The content of `/shell/zslash.elf`. -/
def shellPlaceholder : List U8 := chars "zSlash zslash.elf placeholder - no ELF loader yet.\n"

/-- The content of `/system/readme.txt`. -/
def systemReadme : List U8 := chars "AlderKernel FAT16 disk - installed via 'install'.\n"

/-- A step of `command_install` that makes a directory and goes on with its cluster. -/
def installDirectory (a : Ata σ) (name failed : List U8) (s : Fat16 σ)
    (next : U32 → Fat16 σ → Option (List PrintCall × Fat16 σ)) :
    Option (List PrintCall × Fat16 σ) :=
  let dir := fat16MkdirRoot a name [] s
  match dir.1 with
  | none => some ([.text failed], dir.2)
  | some cluster => next cluster dir.2

/-- The part of `command_install` behind "[4/4]". -/
def installDirectories (a : Ata σ) (s : Fat16 σ) : Option (List PrintCall × Fat16 σ) :=
  installDirectory a (chars "APPS") (chars "Failed to create /apps\n") s fun _ s =>
  printing [.text (chars "      /apps\n")] <|
  installDirectory a (chars "KERNEL") (chars "Failed to create /kernel\n") s fun kernelCl s =>
  (installPlaceholderFile a kernelCl (chars "KERNEL") (chars "ELF") kernelPlaceholder s).bind
    fun r =>
  printing [.text (chars "      /kernel/kernel.elf\n")] <|
  installDirectory a (chars "SHELL") (chars "Failed to create /shell\n") r.2 fun shellCl s =>
  (installPlaceholderFile a shellCl (chars "ZSLASH") (chars "ELF") shellPlaceholder s).bind fun r =>
  printing [.text (chars "      /shell/zslash.elf\n")] <|
  installDirectory a (chars "SYSTEM") (chars "Failed to create /system\n") r.2 fun systemCl s =>
  (installPlaceholderFile a systemCl (chars "README") (chars "TXT") systemReadme s).map fun r =>
    ([.text (chars "      /system/readme.txt\n"), .text (chars "=== Install complete. ===\n"),
      .text (chars "Next: on the HOST, run tools/install_to_disk.sh to install\n"),
      .text (chars "GRUB and copy kernel.bin, making this disk directly bootable.\n")], r.2)

/-- `command_install`. -/
def commandInstall (a : Drive σ) (s : Fat16 σ) : Option (List PrintCall × Fat16 σ) :=
  printing [.text (chars "=== AlderKernel Installer ===\n"),
    .text (chars "WARNING: this ERASES the attached disk.\n"),
    .text (chars "[1/4] Partitioning disk...\n")] <|
  let part := doMkpart a s.dev
  let s := { s with dev := part.2 }
  match part.1 with
  | none =>
    some ([.text (chars "Install failed: could not partition disk (no drive, or too small).\n")], s)
  | some (partStart, partCount) =>
    printing [.text (chars "      start_lba="), .uint partStart, .text (chars " sectors="),
      .uint partCount, .text (chars "\n"), .text (chars "[2/4] Formatting as FAT16...\n")] <|
    let fs := doMkfs a.toAta partStart partCount s.dev
    let s := { s with dev := fs.2 }
    if ¬ fs.1 then some ([.text (chars "Install failed: FAT16 format failed.\n")], s) else
    printing [.text (chars "[3/4] Mounting filesystem...\n")] <|
    let mount := fat16Mount a.toAta partStart s
    if ¬ mount.1 then
      some ([.text (chars "Install failed: mount failed right after formatting (unexpected).\n")],
        mount.2) else
    printing [.text (chars "[4/4] Creating directory structure...\n")] <|
    installDirectories a.toAta mount.2

end

/-- The tree that `install` makes. -/
def installedTree : FileTree :=
  [((chars "APPS", []), .directory []),
    ((chars "KERNEL", []), .directory [((chars "KERNEL", chars "ELF"), kernelPlaceholder)]),
    ((chars "SHELL", []), .directory [((chars "ZSLASH", chars "ELF"), shellPlaceholder)]),
    ((chars "SYSTEM", []), .directory [((chars "README", chars "TXT"), systemReadme)])]

/-! ### Disks that hold a tree -/

/-- The drive has one partition behind its first 2048 sectors in slot 0, and the volume in it is
formatted and holds the tree. -/
structure HoldsTree (total : U32) (d : Disk) (t : FileTree) : Prop where
  slot : tableOf (d 0#32) 0 = wholeDrive total
  boot : d 2048#32 = bootSector 2048#32 (total - 2048#32)
  stored : ∃ next l, Stores 2048#32 d next l ∧ next ≤ 0xFFF8 ∧ treeOf (l.map Made.report) = t

section

variable {p total : U32} {d d' : Disk} {s s' : Fat16 Disk} {l : List Made} {next : ℕ} {t : FileTree}

/-- What is stored is decided by the sectors of the volume. -/
theorem stores_congr (h : Stores p d next l)
    (hd : ∀ k < 2 ^ 23, d' ((formattedVolume p).lba k) = d ((formattedVolume p).lba k)) :
    Stores p d' next l := by
  have hle := h.used.le
  have hfat : SameFat (formattedVolume p) d d' := by
    intro k hk
    rw [formatted_rootOffset] at hk
    exact hd k (by omega)
  refine ⟨h.used.sameFat hfat, h.empty, h.bounds, h.apart, fun o ho i hi => ?_,
    fun o ho i hi j hj => ?_, h.dirs, fun dir hdir => ?_⟩
  · have hbounds := h.bounds o ho (by omega)
    rw [hfat.entryAt_eq (by rw [formatted_numFats]; omega) (formatted_addressable p (by omega)),
      h.chained o ho i hi]
  · have hsize := o.call.clustersFor_size.1
    have hbounds := h.bounds o ho (by omega)
    have hsector := h.data o ho i hi j hj
    unfold sectorOf at hsector ⊢
    rw [formatted_clusterOffset] at hsector ⊢
    rw [hd _ (by omega), hsector]
  · have hvalid := (h.dir_valid hdir).1
    have hstart := hvalid.start_lt (p := p)
    exact (h.table dir hdir).congr hvalid fun k hk hk' => hd k (by omega)

/-- Sector 0 and the boot sector among the sectors in front of the volume. -/
theorem front_lba : (formattedVolume 2048#32).lba (2 ^ 32 - 2049) = 0#32 ∧
    (formattedVolume 2048#32).lba (2 ^ 32 - 1) = 2048#32 := by
  constructor <;> (change 2048#32 + 1#32 + BitVec.ofNat 32 _ = _; decide)

/-- The volume does not reach sector 0. -/
theorem lba_ne_zero {k : ℕ} (hk : k < 2 ^ 23) : (formattedVolume 2048#32).lba k ≠ 0#32 := by
  change 2048#32 + 1#32 + BitVec.ofNat 32 k ≠ 0#32
  bv_omega

/-! ### Each command -/

/-- `do_mkpart` on a drive with more than 2048 sectors. -/
theorem doMkpart_drive (hlarge : 2048#32 < total) (d : Disk) : ∃ d',
    doMkpart (drive total) d = (some (2048#32, total - 2048#32), d') ∧
      tableOf (d' 0#32) 0 = wholeDrive total ∧ ∀ x ≠ 0#32, d' x = d x := by
  let w : MbrWrite := ⟨0, 1#8, 0x06#8, 2048#32, total - 2048#32⟩
  have hwrite := w.run_disk (d := d) (i := 0) rfl
  have hzero : total ≠ 0#32 := by bv_omega
  refine ⟨(w.run disk d).2, ?_, ?_, fun x hx => ?_⟩
  · have hidentify : (drive total).identify d = (true, d) := rfl
    have htotal : (drive total).totalSectors d = total := rfl
    have hrun : mbrWritePartition (drive total).toAta 0 1#8 0x06#8 2048#32 (total - 2048#32) d =
        w.run disk d := rfl
    unfold doMkpart
    rw [hidentify]
    dsimp only
    rw [if_neg (not_not_intro rfl), htotal, if_neg hzero, if_neg (BitVec.not_le.mpr hlarge), hrun,
      hwrite, if_neg (not_not_intro rfl)]
  · rcases w.run_cases d with ⟨hnone, -⟩ | ⟨i, hi, htable, -⟩
    · exact absurd hnone (by simp [w, MbrWrite.slot])
    · obtain rfl : (0 : Fin 4) = i := Option.some.inj hi
      rw [htable, Function.update_self]
      rfl
  · rw [hwrite]
    exact Function.update_of_ne hx _ _

/-- Writing the partition again leaves the tree. -/
theorem HoldsTree.mkpart (h : HoldsTree total d t) (hslot : tableOf (d' 0#32) 0 = wholeDrive total)
    (hd : ∀ x ≠ 0#32, d' x = d x) : HoldsTree total d' t := by
  obtain ⟨-, hboot, next, l, hstores, hnext, htree⟩ := h
  refine ⟨hslot, ?_, next, l, stores_congr hstores fun k hk => hd _ (lba_ne_zero hk), hnext, htree⟩
  rw [hd _ (by decide), hboot]

/-- A fresh volume holds no files. -/
theorem holdsTree_formatted (hslot : tableOf (d 0#32) 0 = wholeDrive total) :
    HoldsTree total (formattedDisk 2048#32 (total - 2048#32) d) [] := by
  refine ⟨?_, formattedDisk_boot, 2, [], .formatted, by omega, rfl⟩
  rwa [formattedDisk_zero (by decide) (by decide)]

/-- The volume is mounted. -/
theorem HoldsTree.mounted (h : HoldsTree total s.dev t) : mountFat16Partition disk s =
    (true, { s with vol := formattedVolume 2048#32, mounted := true }) := by
  rw [mountFat16Partition_first (congrArg MbrPartition.type h.slot), h.slot]
  exact fat16Mount_formatted h.boot

/-- A run of calls on the fresh volume leaves the tree of those that succeeded. -/
theorem holdsTree_calls {s₀ : Fat16 Disk} {log : List (Call × Result)} (hm : MountedAt 2048#32 s₀)
    (h : HoldsTree total s₀.dev []) (hs₀ : Stores 2048#32 s₀.dev 2 [])
    (hrun : CallRun OnKnown s₀ s log) (hroom : ∀ next, FatUsed 2048#32 s.dev next → next ≤ 0xFFF8) :
    HoldsTree total s.dev (treeOf (succeeded log)) := by
  have hok : ∀ log call, OnKnown log call → OnKnown log call := fun _ _ h => h
  obtain ⟨-, next, l, hstores, hlog⟩ := hrun.stores hok hm hs₀
  have hfront {k : ℕ} := callRun_front (k := k) hrun hok hm hs₀
  refine ⟨?_, ?_, next, l, hstores, hroom next hstores.used, by rw [hlog]⟩
  · rw [← front_lba.1, hfront (by omega) (by omega), front_lba.1, h.slot]
  · rw [← front_lba.2, hfront (by omega) (by omega), front_lba.2, h.boot]

end

/-! ### The steps of `install` -/

/-- The call of `fat16_create_file_in_dir` for a placeholder file. -/
def placeholderCall (c : U32) (name ext content : List U8) : Call :=
  .createFileInDir c name ext (fun i => content.getD i.toNat 0#8) (BitVec.ofNat 32 content.length)

/-- Between two states the calls have left sector 0 and the boot sector alone. -/
def SameFront (s s' : Fat16 Disk) : Prop :=
  s'.dev 0#32 = s.dev 0#32 ∧ s'.dev 2048#32 = s.dev 2048#32

section

variable {s s' : Fat16 Disk} {l : List Made} {next : ℕ} {c : U32} {name ext content : List U8}

/-- The front of the drive is the same after two steps that keep it. -/
theorem SameFront.trans {s'' : Fat16 Disk} (h : SameFront s s') (h' : SameFront s' s'') :
    SameFront s s'' := ⟨h'.1.trans h.1, h'.2.trans h.2⟩

/-- A FAT16 call keeps the front of the drive. -/
theorem sameFront_run (call : Call) {result : Result} (h : Stores 2048#32 s.dev next l)
    (hm : MountedAt 2048#32 s) (hdir : IsDir l call.dir)
    (hr : call.run disk s = some (result, s')) :
    SameFront s s' := by
  have hfront {k : ℕ} := run_front (k := k) hm (h.dir_valid hdir).1 hr
  constructor
  · rw [← front_lba.1, hfront (by omega) (by omega)]
  · rw [← front_lba.2, hfront (by omega) (by omega)]

/-- A directory has at most as many entries as calls were made. -/
theorem liveEntries_length_le (dir : Dir) (l : List Made) :
    (liveEntries dir l).length ≤ l.length := by
  unfold liveEntries
  rw [List.length_map]
  exact List.length_filter_le _ _

/-- A directory is made while there is room. -/
theorem installDirectory_succeeds (h : Stores 2048#32 s.dev next l) (hm : MountedAt 2048#32 s)
    (hnext : next < 65536) (hl : l.length < 512) (name : List U8) :
    ∃ first s', fat16MkdirRoot disk name [] s = (some (BitVec.ofNat 32 first), s') ∧
      MountedAt 2048#32 s' ∧ Stores 2048#32 s'.dev (next + 1) (l ++ [⟨.mkdirRoot name [], first⟩]) ∧
      IsDir (l ++ [⟨.mkdirRoot name [], first⟩]) (.cluster (BitVec.ofNat 32 first)) ∧
      SameFront s s' := by
  have hlive := liveEntries_length_le .root l
  have hroot : IsDir l .root := .inl rfl
  obtain ⟨first, s', hr, hm', hs'⟩ := h.succeeds hm (.mkdirRoot name []) hroot
    (by change next + 1 ≤ 65536; omega) (by
      change ([] ++ liveEntries .root l).length < 16 * 32
      rw [List.nil_append]
      omega)
  refine ⟨first, s', ?_, hm', hs', .inr ⟨_, List.mem_append_right _ (.head _), rfl, rfl⟩,
    sameFront_run (.mkdirRoot name []) h hm hroot hr⟩
  have hresult := Option.some.inj hr
  generalize fat16MkdirRoot disk name [] s = r at hresult ⊢
  obtain ⟨made, s''⟩ := r
  obtain ⟨hmade, rfl⟩ := Prod.mk.inj hresult
  cases made with
  | none => exact Result.noConfusion hmade
  | some cluster => rw [Result.directory.inj hmade]

/-- A placeholder file is made while there is room. -/
theorem installPlaceholderFile_succeeds (h : Stores 2048#32 s.dev next l) (hm : MountedAt 2048#32 s)
    (hdir : IsDir l (.cluster c)) (hnext : next < 65536) (hl : l.length < 512)
    (name ext : List U8) (hpos : 0 < content.length) (hmax : content.length ≤ 32768) :
    ∃ first s', installPlaceholderFile disk c name ext content s = some (true, s') ∧
      MountedAt 2048#32 s' ∧
      Stores 2048#32 s'.dev (next + 1) (l ++ [⟨placeholderCall c name ext content, first⟩]) ∧
      SameFront s s' := by
  have hlive := liveEntries_length_le (.cluster c) l
  have hclusters : (placeholderCall c name ext content).clusters = 1 := by
    change clustersFor (BitVec.ofNat 32 content.length) = 1
    unfold clustersFor
    rw [BitVec.toNat_ofNat]
    omega
  obtain ⟨first, s', hr, hm', hs'⟩ := h.succeeds hm (placeholderCall c name ext content) hdir
    (by omega) (by
      change ((Dir.cluster c).dots ++ liveEntries (.cluster c) l).length < 16 * 64
      rw [List.length_append]
      change 2 + _ < 16 * 64
      omega)
  rw [hclusters] at hs'
  refine ⟨first, s', ?_, hm', hs', sameFront_run (placeholderCall c name ext content) h hm hdir hr⟩
  obtain ⟨⟨ok, s''⟩, hrun, hresult⟩ := Option.map_eq_some_iff.mp hr
  obtain ⟨hok, rfl⟩ := Prod.mk.inj hresult
  cases ok with
  | false => exact Result.noConfusion hok
  | true => exact hrun

end

/-- Directories have different clusters. -/
theorem directories_nodup {p : U32} {d : Disk} {next : ℕ} {l : List Made} (h : Stores p d next l) :
    ((l.filter fun o => o.call.isMkdir).map fun o => BitVec.ofNat 32 o.first).Nodup := by
  unfold List.Nodup
  rw [List.pairwise_map]
  refine (h.apart.filter _).imp_of_mem fun {o o'} ho ho' hapart heq => ?_
  obtain ⟨hmem, hmkdir⟩ := List.mem_filter.mp ho
  obtain ⟨hmem', hmkdir'⟩ := List.mem_filter.mp ho'
  have hlt := h.first_lt hmem
  have hlt' := h.first_lt hmem'
  have hfirst : o.first = o'.first := by bv_omega
  have hcount := o.call.clusters_of_isMkdir hmkdir
  have hcount' := o'.call.clusters_of_isMkdir hmkdir'
  have hin : o.first ∈ o.clusters := ⟨le_rfl, by omega⟩
  have hin' : o.first ∈ o'.clusters := ⟨by omega, by omega⟩
  exact Set.disjoint_left.mp hapart hin hin'

/-- The content of a placeholder file. -/
theorem fileContent_placeholder (c : U32) (name ext : List U8) {content : List U8}
    (h : content.length < 2 ^ 32) :
    fileContent (placeholderCall c name ext content) = content := by
  have hsize : (BitVec.ofNat 32 content.length).toNat = content.length := by bv_omega
  change (List.range (BitVec.ofNat 32 content.length).toNat).map
    (fun i => content.getD (BitVec.ofNat 32 i).toNat 0#8) = content
  rw [hsize]
  apply List.ext_getElem
  · simp
  · intro i hi hi'
    have hi32 : (BitVec.ofNat 32 i).toNat = i := by bv_omega
    rw [List.getElem_map, List.getElem_range, hi32, List.getD_eq_getElem _ _ hi']

/-- The calls of `install` make its tree, in any clusters. -/
theorem treeOf_installed {c₁ c₂ c₃ c₄ : U32} (h : [c₁, c₂, c₃, c₄].Nodup) :
    treeOf [(.mkdirRoot (chars "APPS") [], .directory c₁),
      (.mkdirRoot (chars "KERNEL") [], .directory c₂),
      (placeholderCall c₂ (chars "KERNEL") (chars "ELF") kernelPlaceholder, .file),
      (.mkdirRoot (chars "SHELL") [], .directory c₃),
      (placeholderCall c₃ (chars "ZSLASH") (chars "ELF") shellPlaceholder, .file),
      (.mkdirRoot (chars "SYSTEM") [], .directory c₄),
      (placeholderCall c₄ (chars "README") (chars "TXT") systemReadme, .file)] = installedTree := by
  have hkernel := fileContent_placeholder c₂ (chars "KERNEL") (chars "ELF")
    (show kernelPlaceholder.length < 2 ^ 32 by decide)
  have hshell := fileContent_placeholder c₃ (chars "ZSLASH") (chars "ELF")
    (show shellPlaceholder.length < 2 ^ 32 by decide)
  have hsystem := fileContent_placeholder c₄ (chars "README") (chars "TXT")
    (show systemReadme.length < 2 ^ 32 by decide)
  have hmkdir (name : List U8) : (Call.mkdirRoot name []).dir = .root ∧
      (Call.mkdirRoot name []).live = decide (name.head? ≠ some 0xE5#8) ∧
        (Call.mkdirRoot name []).name = name ∧ (Call.mkdirRoot name []).ext = [] :=
    ⟨rfl, rfl, rfl, rfl⟩
  have hletters : (chars "APPS").head? = some 0x41#8 ∧ (chars "KERNEL").head? = some 0x4B#8 ∧
      (chars "SHELL").head? = some 0x53#8 ∧ (chars "ZSLASH").head? = some 0x5A#8 ∧
      (chars "SYSTEM").head? = some 0x53#8 ∧ (chars "README").head? = some 0x52#8 := by decide
  have hlive (c : U32) (name ext content : List U8) : (placeholderCall c name ext content).live =
      decide (name.head? ≠ some 0xE5#8) := rfl
  have hdir (c : U32) (name ext content : List U8) :
      (placeholderCall c name ext content).dir = .cluster c := rfl
  have hnames (c : U32) (name ext content : List U8) :
      (placeholderCall c name ext content).name = name ∧
        (placeholderCall c name ext content).ext = ext := ⟨rfl, rfl⟩
  simp only [List.nodup_cons, List.mem_cons, List.not_mem_nil, or_false, not_or] at h
  obtain ⟨⟨h₁₂, h₁₃, h₁₄⟩, ⟨h₂₃, h₂₄⟩, h₃₄, -⟩ := h
  simp [treeOf, filesOf, itemOf, hmkdir, hdir, hlive, hnames, hkernel, hshell, hsystem,
    installedTree, hletters, h₂₃, h₂₄, h₃₄, Ne.symm h₁₂, Ne.symm h₁₃, Ne.symm h₁₄, Ne.symm h₂₃,
    Ne.symm h₂₄, Ne.symm h₃₄]

/-- `install` makes its tree on a fresh volume. -/
theorem installDirectories_disk {s : Fat16 Disk} (h : Stores 2048#32 s.dev 2 [])
    (hm : MountedAt 2048#32 s) : ∃ s', installDirectories disk s =
      some ([.text (chars "      /apps\n"), .text (chars "      /kernel/kernel.elf\n"),
        .text (chars "      /shell/zslash.elf\n"), .text (chars "      /system/readme.txt\n"),
        .text (chars "=== Install complete. ===\n"),
        .text (chars "Next: on the HOST, run tools/install_to_disk.sh to install\n"),
        .text (chars "GRUB and copy kernel.bin, making this disk directly bootable.\n")], s') ∧
      SameFront s s' ∧
      ∃ l, Stores 2048#32 s'.dev 9 l ∧ treeOf (l.map Made.report) = installedTree := by
  obtain ⟨f₁, s₁, hr₁, hm₁, hs₁, -, hfront₁⟩ :=
    installDirectory_succeeds h hm (by omega) (by simp) (chars "APPS")
  obtain ⟨f₂, s₂, hr₂, hm₂, hs₂, hdir₂, hfront₂⟩ :=
    installDirectory_succeeds hs₁ hm₁ (by omega) (by simp) (chars "KERNEL")
  obtain ⟨f₃, s₃, hr₃, hm₃, hs₃, hfront₃⟩ :=
    installPlaceholderFile_succeeds hs₂ hm₂ hdir₂ (by omega) (by simp) (chars "KERNEL")
      (chars "ELF") (show 0 < kernelPlaceholder.length by decide) (by decide)
  obtain ⟨f₄, s₄, hr₄, hm₄, hs₄, hdir₄, hfront₄⟩ :=
    installDirectory_succeeds hs₃ hm₃ (by omega) (by simp) (chars "SHELL")
  obtain ⟨f₅, s₅, hr₅, hm₅, hs₅, hfront₅⟩ :=
    installPlaceholderFile_succeeds hs₄ hm₄ hdir₄ (by omega) (by simp) (chars "ZSLASH")
      (chars "ELF") (show 0 < shellPlaceholder.length by decide) (by decide)
  obtain ⟨f₆, s₆, hr₆, hm₆, hs₆, hdir₆, hfront₆⟩ :=
    installDirectory_succeeds hs₅ hm₅ (by omega) (by simp) (chars "SYSTEM")
  obtain ⟨f₇, s₇, hr₇, hm₇, hs₇, hfront₇⟩ :=
    installPlaceholderFile_succeeds hs₆ hm₆ hdir₆ (by omega) (by simp) (chars "README")
      (chars "TXT") (show 0 < systemReadme.length by decide) (by decide)
  have hfront := hfront₁.trans (hfront₂.trans (hfront₃.trans (hfront₄.trans (hfront₅.trans
    (hfront₆.trans hfront₇)))))
  refine ⟨s₇, ?_, hfront, _, hs₇, treeOf_installed (directories_nodup hs₇)⟩
  unfold installDirectories installDirectory printing
  simp only [hr₁, hr₂, hr₃, hr₄, hr₅, hr₆, hr₇, Option.bind_some, Option.map_some, List.cons_append,
    List.nil_append]

/-! ### `mkfs` and `install` as a whole -/

section

variable {total : U32} {s : Fat16 Disk} {t : FileTree}

/-- What `mkpart` prints when it succeeds. -/
def mkpartCalls (total : U32) : List PrintCall :=
  [.text (chars "Partition table written: type=0x06 (FAT16) start_lba="), .uint 2048#32,
    .text (chars " sectors="), .uint (total - 2048#32), .text (chars "\n")]

/-- What `mkfs` prints when it succeeds with the partition of `mkpart`. -/
def mkfsCalls (total : U32) : List PrintCall :=
  [.text (chars "Formatting partition "), .uint 0#32, .text (chars " as FAT16 ("),
    .uint (total - 2048#32), .text (chars " sectors)...\n"), .text (chars "Format complete.\n")]

/-- What `install` prints when all its steps succeed. -/
def installCalls (total : U32) : List PrintCall :=
  [.text (chars "=== AlderKernel Installer ===\n"),
    .text (chars "WARNING: this ERASES the attached disk.\n"),
    .text (chars "[1/4] Partitioning disk...\n"),
    .text (chars "      start_lba="), .uint 2048#32, .text (chars " sectors="),
    .uint (total - 2048#32), .text (chars "\n"), .text (chars "[2/4] Formatting as FAT16...\n"),
    .text (chars "[3/4] Mounting filesystem...\n"),
    .text (chars "[4/4] Creating directory structure...\n"),
    .text (chars "      /apps\n"), .text (chars "      /kernel/kernel.elf\n"),
    .text (chars "      /shell/zslash.elf\n"), .text (chars "      /system/readme.txt\n"),
    .text (chars "=== Install complete. ===\n"),
    .text (chars "Next: on the HOST, run tools/install_to_disk.sh to install\n"),
    .text (chars "GRUB and copy kernel.bin, making this disk directly bootable.\n")]

/-- `mkpart` on a drive with more than 2048 sectors. -/
theorem mkpart_drive (hlarge : 2048#32 < total) (s : Fat16 Disk) : ∃ d',
    commandMkpart (drive total) s = (mkpartCalls total, { s with dev := d' }) ∧
      tableOf (d' 0#32) 0 = wholeDrive total ∧ ∀ x ≠ 0#32, d' x = s.dev x := by
  obtain ⟨d', hmkpart, hslot, hkept⟩ := doMkpart_drive hlarge s.dev
  refine ⟨d', ?_, hslot, hkept⟩
  unfold commandMkpart
  rw [hmkpart]
  rfl

/-- `mkfs` formats slot 0. -/
theorem mkfs_drive (hsize : Admitted (total - 2048#32))
    (hslot : tableOf (s.dev 0#32) 0 = wholeDrive total) : commandMkfs disk s =
      (mkfsCalls total, { s with dev := formattedDisk 2048#32 (total - 2048#32) s.dev }) := by
  obtain ⟨hused, hfirst⟩ := firstSlot (congrArg MbrPartition.type hslot)
  have hformat := fat16Format_of_admitted 2048#32 _ hsize s.dev
  unfold commandMkfs
  simp only [mbrReadPartitions_disk, hused, if_false, hfirst, hslot, wholeDrive, hformat, if_true]
  rfl

/-- `install` succeeds on every drive whose transfers succeed, if the size is accepted, and leaves
its tree there, whatever the drive held and whatever was mounted. -/
theorem install_drive (hlarge : 2048#32 < total) (hsize : Admitted (total - 2048#32))
    (s : Fat16 Disk) : ∃ s', commandInstall (drive total) s = some (installCalls total, s') ∧
      HoldsTree total s'.dev installedTree := by
  obtain ⟨d₁, hmkpart, hslot, -⟩ := doMkpart_drive hlarge s.dev
  have hfresh := holdsTree_formatted hslot
  obtain ⟨d₂, hformat, hslot₂, hboot₂⟩ : ∃ d₂, doMkfs disk 2048#32 (total - 2048#32) d₁ =
      (true, d₂) ∧
      tableOf (d₂ 0#32) 0 = wholeDrive total ∧
      d₂ 2048#32 = bootSector 2048#32 (total - 2048#32) :=
    ⟨_, fat16Format_of_admitted _ _ hsize d₁, hfresh.slot, hfresh.boot⟩
  have hmount := fat16Mount_formatted (s := { s with dev := d₂ }) hboot₂
  obtain ⟨hm, hs⟩ := stores_fresh (s := { s with dev := d₂ }) hformat hmount
  obtain ⟨s', hdirectories, ⟨hzero, hboot⟩, l, hstores, htree⟩ := installDirectories_disk hs hm
  have hata : (drive total).toAta = disk := rfl
  refine ⟨s', ?_, hzero ▸ hslot₂, hboot.trans hboot₂, 9, l, hstores, by omega, htree⟩
  unfold commandInstall printing
  simp only [hmkpart, hata, hformat, hmount, hdirectories, not_true, if_false, Option.map_some]
  rfl

end

end AlderKernel.Shell
