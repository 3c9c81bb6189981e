import AlderKernel.Shell.DiskPaths
import AlderKernel.Fs.ReadBack
import AlderKernel.Fs.FailedCalls

/-!
# The file tree of a volume

What successful calls have made is a tree: the root directory has items with names, and an item is a
file with its content or a directory of files. Lookup on the disk finds what the tree has under the
name, and listing a directory lists its items. Calls leave the sectors in front of the volume alone.
-/

namespace AlderKernel.Shell

open Machine Fs

/-- A name with its extension. -/
abbrev FileName := List U8 × List U8

/-- What an entry of the root directory stands for. -/
inductive Item where
  | file (content : List U8)
  | directory (files : List (FileName × List U8))

/-- A file tree: the items of the root directory, oldest first. -/
abbrev FileTree := List (FileName × Item)

/-- What `catdisk` finds in an item. A directory has the size 0. -/
def Item.content : Item → List U8
  | file content => content
  | directory _ => []

/-- The first of the items with the name that is looked for. -/
def lookup {α : Type} (items : List (FileName × α)) (name ext : List U8) : Option α :=
  (items.find? fun x => paddedName x.1.1 x.1.2 = foldedName name ext).map Prod.snd

/-- The content that the argument of `catdisk` stands for. -/
def FileTree.path (t : FileTree) (arg : List U8) : Option (List U8) :=
  match charIndex 0x2F#8 arg with
  | none =>
    match lookup t arg [] with
    | some item => some item.content
    | none => (splitName arg).bind fun parts => (lookup t parts.1 parts.2).map Item.content
  | some slash =>
    match lookup t ((cString arg).take slash) [] with
    | some (.directory files) =>
      let rest := (cString arg).drop (slash + 1)
      match splitName rest with
      | some (name, ext) => lookup files name ext
      | none => lookup files rest []
    | _ => none

/-- The bytes that a call has put in its file. -/
def fileContent (call : Call) : List U8 :=
  (List.range call.size.toNat).map fun i => call.data (BitVec.ofNat 32 i)

/-- The files that successful calls have made in a subdirectory. -/
def filesOf (reports : List (Call × Result)) (c : U32) : List (FileName × List U8) :=
  (reports.filter fun r => r.1.dir = .cluster c ∧ r.1.live).map fun r =>
    ((r.1.name, r.1.ext), fileContent r.1)

/-- What a successful call has made. -/
def itemOf (reports : List (Call × Result)) : Call × Result → Item
  | (_, .directory c) => .directory (filesOf reports c)
  | (call, _) => .file (fileContent call)

/-- The tree that successful calls have made. -/
def treeOf (reports : List (Call × Result)) : FileTree :=
  (reports.filter fun r => r.1.dir = .root ∧ r.1.live).map fun r =>
    ((r.1.name, r.1.ext), itemOf reports r)

/-- A dirent on the disk is that of an item. -/
inductive Shows (s : Fat16 Disk) (l : List Made) (e : Dirent) : Item → Prop
  | file {content : List U8} (hattr : e.attr = attrFile) (hsize : e.size.toNat = content.length)
      (hmax : content.length ≤ 2 ^ 31) (hdata : ReadsBack s e fun i => content.getD i.toNat 0#8) :
      Shows s l e (.file content)
  | directory (hattr : e.attr = attrDirectory) (hsize : e.size = 0#32)
      (hdir : IsDir l (.cluster e.cluster)) :
      Shows s l e (.directory (filesOf (l.map Made.report) e.cluster))

/-- A dirent on the disk is that of an item with its name. -/
structure Lists (s : Fat16 Disk) (l : List Made) (e : Dirent) (x : FileName × Item) : Prop where
  name : e.name = shownName 8 x.1.1
  ext : e.ext = shownName 3 x.1.2
  item : Shows s l e x.2

section

variable {p : U32} {s s' : Fat16 Disk} {l : List Made} {o : Made} {dir : Dir} {next k : ℕ}
  {name ext arg : List U8} {call : Call} {result : Result} {c : U32}

/-! ### What was made -/

/-- A call that made a directory is a directory of the tree, with its files. -/
theorem itemOf_report_of_isMkdir (h : o.call.isMkdir = true) (reports : List (Call × Result)) :
    itemOf reports o.report = .directory (filesOf reports (BitVec.ofNat 32 o.first)) := by
  obtain ⟨call, first⟩ := o
  cases call with
  | mkdirRoot name ext => rfl
  | createFileRoot name ext data size => exact absurd h (by simp [Call.isMkdir])
  | createFileInDir dirCluster name ext data size => exact absurd h (by simp [Call.isMkdir])

/-- A call that made a file is a file of the tree, with its content. -/
theorem itemOf_report_of_file (h : o.call.isMkdir = false) (reports : List (Call × Result)) :
    itemOf reports o.report = .file (fileContent o.call) := by
  obtain ⟨call, first⟩ := o
  cases call with
  | mkdirRoot name ext => exact absurd h (by simp [Call.isMkdir])
  | createFileRoot name ext data size => rfl
  | createFileInDir dirCluster name ext data size => rfl

/-- The attributes of an entry tell directories from files. -/
theorem attr_eq (call : Call) : call.attr = if call.isMkdir then attrDirectory else attrFile := by
  cases call <;> rfl

/-- A directory has no size, and lies in the root directory. -/
theorem size_of_isMkdir (h : call.isMkdir = true) : call.size = 0#32 ∧ call.dir = .root := by
  cases call with
  | mkdirRoot name ext => exact ⟨rfl, rfl⟩
  | createFileRoot name ext data size => exact absurd h (by simp [Call.isMkdir])
  | createFileInDir dirCluster name ext data size => exact absurd h (by simp [Call.isMkdir])

/-- What is read back of a file is its content. -/
theorem fileContent_getD {i : U32} (hi : i.toNat < call.size.toNat) :
    (fileContent call).getD i.toNat 0#8 = call.data i := by
  unfold fileContent
  rw [List.getD_eq_getElem _ _ (by simpa using hi), List.getElem_map, List.getElem_range,
    BitVec.ofNat_toNat, BitVec.setWidth_eq]

/-- The entry of what was made shows its item. -/
theorem shows_entry (h : Stores p s.dev next l) (hm : MountedAt p s) (hnext : next ≤ 0xFFF8)
    (ho : o ∈ l) : Shows s l (fillDirent o.entry) (itemOf (l.map Made.report) o.report) := by
  have hdata := h.readsBack hm hnext ho
  have hsize := o.call.clustersFor_size.1
  have hattr := attr_eq o.call
  rw [h.fillDirent_entry ho] at hdata ⊢
  cases hmkdir : o.call.isMkdir with
  | true =>
    rw [hmkdir, if_pos rfl] at hattr
    rw [itemOf_report_of_isMkdir hmkdir]
    exact .directory hattr (size_of_isMkdir hmkdir).1 (.inr ⟨o, ho, hmkdir, rfl⟩)
  | false =>
    rw [hmkdir, if_neg Bool.false_ne_true] at hattr
    rw [itemOf_report_of_file hmkdir]
    have hlength : (fileContent o.call).length = o.call.size.toNat := by simp [fileContent]
    refine .file hattr hlength.symm ?_ fun buffer bufferSize hfits => ?_
    · -- The data takes no more than the clusters of the FAT.
      rw [hlength]
      unfold clustersFor at hsize
      by_cases hpos : 0 < o.call.clusters
      · have hbounds := h.bounds o ho hpos
        omega
      · omega
    · obtain ⟨r, hr, hok, hread⟩ := hdata buffer bufferSize hfits
      refine ⟨r, hr, hok, fun i => (hread i).trans ?_⟩
      split_ifs with hi
      · exact (fileContent_getD hi).symm
      · rfl

/-! ### Lookup -/

/-- `names_equal` on the entry of a call compares the names. -/
theorem namesEqual_entry (o : Made) : namesEqual o.entry name ext =
    decide (paddedName o.call.name o.call.ext = foldedName name ext) := by
  rw [Bool.eq_iff_iff, namesEqual_iff, decide_eq_true_eq, Made.entry, Call.entry_eq,
    nameField_setDirEntry]

/-- Lookup in a directory without a match among '.' and '..' is lookup among what was made there. -/
theorem find_made (dir : Dir) (h : Stores p s.dev next l) (hm : MountedAt p s)
    (hnext : next ≤ 0xFFF8) (hdir : IsDir l dir)
    (hdots : ∀ e ∈ dir.dots, namesEqual e name ext = false) :
    let made := (l.filter fun o => o.call.dir = dir ∧ o.call.live).find? fun o =>
      decide (paddedName o.call.name o.call.ext = foldedName name ext)
    (dir.find disk name ext s = (none, s) ∧ made = none) ∨
      ∃ o, dir.find disk name ext s = (some (fillDirent o.entry), s) ∧ made = some o ∧
        o.call.dir = dir ∧
        Shows s l (fillDirent o.entry) (itemOf (l.map Made.report) o.report) := by
  have hnone : dir.dots.find? (fun e => namesEqual e name ext) = none := by
    simpa using hdots
  rw [Dir.find_disk hm.mounted, hm.vol, h.entries_eq hdir, List.find?_append, hnone, Option.none_or,
    liveEntries, List.find?_map]
  simp only [Function.comp_def, namesEqual_entry]
  cases hfind : (l.filter fun o => o.call.dir = dir ∧ o.call.live).find? fun o =>
      decide (paddedName o.call.name o.call.ext = foldedName name ext) with
  | none => exact .inl ⟨rfl, rfl⟩
  | some o =>
    obtain ⟨ho, hin⟩ := List.mem_filter.mp (List.mem_of_find?_eq_some hfind)
    exact .inr ⟨o, rfl, rfl, (of_decide_eq_true hin).1, shows_entry h hm hnext ho⟩

/-- Lookup in the root directory is lookup in the tree. -/
theorem findInRoot_tree (h : Stores p s.dev next l) (hm : MountedAt p s) (hnext : next ≤ 0xFFF8)
    (name ext : List U8) :
    (fat16FindInRoot disk name ext s = (none, s) ∧
        lookup (treeOf (l.map Made.report)) name ext = none) ∨
      ∃ e item, fat16FindInRoot disk name ext s = (some e, s) ∧
        lookup (treeOf (l.map Made.report)) name ext = some item ∧ Shows s l e item := by
  have hlookup : lookup (treeOf (l.map Made.report)) name ext =
      ((l.filter fun o => o.call.dir = .root ∧ o.call.live).find? fun o =>
        decide (paddedName o.call.name o.call.ext = foldedName name ext)).map fun o =>
          itemOf (l.map Made.report) o.report := by
    unfold lookup treeOf
    rw [List.filter_map, List.map_map, List.find?_map, Option.map_map]
    rfl
  rw [hlookup]
  rcases find_made .root h hm hnext (.inl rfl) fun e he => absurd he List.not_mem_nil with
    ⟨hfind, hmade⟩ | ⟨o, hfind, hmade, -, hshows⟩
  · exact .inl ⟨hfind, by rw [hmade]; rfl⟩
  · exact .inr ⟨_, _, hfind, by rw [hmade]; rfl, hshows⟩

/-- Lookup in a subdirectory is lookup among its files. -/
theorem findInDir_tree (h : Stores p s.dev next l) (hm : MountedAt p s) (hnext : next ≤ 0xFFF8)
    (hdir : IsDir l (.cluster c)) (name ext : List U8)
    (hdots : ∀ e ∈ (Dir.cluster c).dots, namesEqual e name ext = false) :
    (fat16FindInDir disk c name ext s = (none, s) ∧
        lookup (filesOf (l.map Made.report) c) name ext = none) ∨
      ∃ e content, fat16FindInDir disk c name ext s = (some e, s) ∧
        lookup (filesOf (l.map Made.report) c) name ext = some content ∧
          Shows s l e (.file content) := by
  have hlookup : lookup (filesOf (l.map Made.report) c) name ext =
      ((l.filter fun o => o.call.dir = .cluster c ∧ o.call.live).find? fun o =>
        decide (paddedName o.call.name o.call.ext = foldedName name ext)).map fun o =>
          fileContent o.call := by
    unfold lookup filesOf
    rw [List.filter_map, List.map_map, List.find?_map, Option.map_map]
    rfl
  rw [hlookup]
  rcases find_made _ h hm hnext hdir hdots with ⟨hfind, hmade⟩ | ⟨o, hfind, hmade, hin, hshows⟩
  · exact .inl ⟨hfind, by rw [hmade]; rfl⟩
  · have hfile : o.call.isMkdir = false := by
      rw [Bool.eq_false_iff]
      intro hmkdir
      rw [(size_of_isMkdir hmkdir).2] at hin
      exact Dir.noConfusion hin
    rw [itemOf_report_of_file hfile] at hshows
    exact .inr ⟨_, _, hfind, by rw [hmade]; rfl, hshows⟩

/-- A name without a dot is not that of '.' or '..'. -/
theorem dots_namesEqual (hname : 0x2E#8 ∉ cString name) :
    ∀ e ∈ dir.dots, namesEqual e name ext = false := by
  have hfold : ∀ c : U8, foldCase c = 0x2E#8 ↔ c = 0x2E#8 := by decide
  have hfirst : (foldedName name ext).head? ≠ some 0x2E#8 := by
    unfold foldedName paddedName copyPadded
    cases hstring : cString name with
    | nil => simp [foldCase]
    | cons c cs =>
      have hne : c ≠ 0x2E#8 := fun heq => hname (by simp [hstring, heq])
      simp [hfold, hne]
  intro e he
  rw [Bool.eq_false_iff, Ne, namesEqual_iff]
  intro heq
  apply hfirst
  rw [← heq]
  cases dir with
  | root => exact absurd he List.not_mem_nil
  | cluster c =>
    simp only [Dir.dots, List.mem_cons, List.not_mem_nil, or_false] at he
    rcases he with rfl | rfl <;> rw [nameField_setDirEntry] <;> decide

/-- Without a dot in it, or in front of the first one, no name is taken for '.' or '..'. -/
theorem splitName_dots (rest : List U8) : match splitName rest with
    | some (name, _) => 0x2E#8 ∉ cString name
    | none => 0x2E#8 ∉ cString rest := by
  unfold splitName charIndex
  cases hdot : (cString rest).findIdx? fun b => b = 0x2E#8 with
  | none =>
    rw [List.findIdx?_eq_none_iff] at hdot
    intro hmem
    simpa using hdot _ hmem
  | some dot =>
    obtain ⟨hlt, -, hfirst⟩ := List.findIdx?_eq_some_iff_getElem.mp hdot
    change 0x2E#8 ∉ cString (((cString rest).take dot).take 8)
    intro hmem
    obtain ⟨i, hi, heq⟩ := List.getElem_of_mem (List.mem_of_mem_take (List.takeWhile_subset _ hmem))
    rw [List.length_take] at hi
    rw [List.getElem_take] at heq
    exact hfirst i (by omega) (by simpa using heq)

/-- `catdisk` selects what the tree has at the end of the path. -/
theorem catdiskEntry_tree (h : Stores p s.dev next l) (hm : MountedAt p s) (hnext : next ≤ 0xFFF8)
    (arg : List U8) :
    (catdiskEntry disk arg s = (none, s) ∧ FileTree.path (treeOf (l.map Made.report)) arg = none) ∨
      ∃ e item, catdiskEntry disk arg s = (some e, s) ∧ Shows s l e item ∧
        FileTree.path (treeOf (l.map Made.report)) arg = some item.content := by
  have hroot := findInRoot_tree h hm hnext
  unfold catdiskEntry FileTree.path
  cases hslash : charIndex 0x2F#8 arg with
  | none =>
    rcases hroot arg [] with ⟨hfind, hitem⟩ | ⟨e, item, hfind, hitem, hshows⟩
    · simp only [hfind, hitem]
      cases hsplit : splitName arg with
      | none => exact .inl ⟨rfl, rfl⟩
      | some parts =>
        rcases hroot parts.1 parts.2 with ⟨hfind, hitem⟩ | ⟨e, item, hfind, hitem, hshows⟩
        · exact .inl ⟨hfind, by rw [Option.bind_some, hitem]; rfl⟩
        · exact .inr ⟨e, item, hfind, hshows, by rw [Option.bind_some, hitem]; rfl⟩
    · simp only [hfind, hitem]
      exact .inr ⟨e, item, rfl, hshows, rfl⟩
  | some slash =>
    unfold findInDirectory
    rcases hroot ((cString arg).take slash) [] with ⟨hfind, hitem⟩ | ⟨e, item, hfind, hitem, hshows⟩
    · simp only [hfind, hitem]
      exact .inl ⟨trivial, trivial⟩
    · simp only [hfind, hitem]
      cases hshows with
      | file hattr hsize hmax hdata =>
        rw [if_pos (by rw [hattr]; decide)]
        exact .inl ⟨rfl, rfl⟩
      | directory hattr hsize hdir =>
        have hdots := splitName_dots ((cString arg).drop (slash + 1))
        have hinside (name ext : List U8) (hname : 0x2E#8 ∉ cString name) :=
          findInDir_tree h hm hnext hdir name ext (dots_namesEqual hname)
        rw [if_neg (by rw [hattr]; decide)]
        cases hsplit : splitName ((cString arg).drop (slash + 1)) with
        | none =>
          rw [hsplit] at hdots
          rcases hinside _ [] hdots with ⟨hfind, hitem⟩ | ⟨e, content, hfind, hitem, hshows⟩
          · exact .inl ⟨hfind, hitem⟩
          · exact .inr ⟨e, _, hfind, hshows, hitem⟩
        | some parts =>
          obtain ⟨name, ext⟩ := parts
          rw [hsplit] at hdots
          rcases hinside name ext hdots with ⟨hfind, hitem⟩ | ⟨e, content, hfind, hitem, hshows⟩
          · exact .inl ⟨hfind, hitem⟩
          · exact .inr ⟨e, _, hfind, hshows, hitem⟩

/-! ### Listing -/

/-- The entry of what was made is listed with its name. -/
theorem lists_entry (h : Stores p s.dev next l) (hm : MountedAt p s) (hnext : next ≤ 0xFFF8)
    (ho : o ∈ l) : Lists s l (fillDirent o.entry)
      ((o.call.name, o.call.ext), itemOf (l.map Made.report) o.report) := by
  have hfields := h.fillDirent_entry ho
  exact ⟨congrArg Dirent.name hfields, congrArg Dirent.ext hfields, shows_entry h hm hnext ho⟩

/-- The root directory lists the items of the tree. -/
theorem root_entries_tree (h : Stores p s.dev next l) (hm : MountedAt p s) (hnext : next ≤ 0xFFF8) :
    List.Forall₂ (Lists s l) ((Dir.root.entries s.vol s.dev).map fillDirent)
      (treeOf (l.map Made.report)) := by
  have htree : treeOf (l.map Made.report) = (l.filter fun o => o.call.dir = .root ∧ o.call.live).map
      fun o => ((o.call.name, o.call.ext), itemOf (l.map Made.report) o.report) := by
    unfold treeOf
    rw [List.filter_map, List.map_map]
    rfl
  have hroot : IsDir l .root := .inl rfl
  rw [hm.vol, h.entries_eq hroot, htree]
  rw [Dir.dots, List.nil_append, liveEntries, List.map_map, List.forall₂_map_left_iff,
    List.forall₂_map_right_iff, List.forall₂_same]
  exact fun o ho => lists_entry h hm hnext (List.mem_filter.mp ho).1

/-- A subdirectory lists '.', '..' and its files. -/
theorem dir_entries_tree (h : Stores p s.dev next l) (hm : MountedAt p s) (hnext : next ≤ 0xFFF8)
    (hdir : IsDir l (.cluster c)) : ∃ es,
      ((Dir.cluster c).entries s.vol s.dev).map fillDirent =
        ⟨[0x2E#8], [], attrDirectory, c, 0#32⟩ ::
          ⟨[0x2E#8, 0x2E#8], [], attrDirectory, 0#32, 0#32⟩ :: es ∧
      List.Forall₂ (Lists s l) es
        ((filesOf (l.map Made.report) c).map fun x => (x.1, .file x.2)) := by
  have hc : c.toNat < 2 ^ 16 := by
    have hvalid := (h.dir_valid hdir).1
    exact hvalid.2
  refine ⟨(liveEntries (.cluster c) l).map fillDirent, ?_, ?_⟩
  · rw [hm.vol, h.entries_eq hdir, List.map_append, Dir.dots, List.map_cons, List.map_cons,
      List.map_nil, fillDirent_setDirEntry hc, fillDirent_setDirEntry (by decide)]
    rfl
  · have hfiles : (filesOf (l.map Made.report) c).map (fun x => (x.1, Item.file x.2)) =
        (l.filter fun o => o.call.dir = .cluster c ∧ o.call.live).map fun o =>
          ((o.call.name, o.call.ext), Item.file (fileContent o.call)) := by
      unfold filesOf
      rw [List.filter_map, List.map_map, List.map_map]
      rfl
    rw [hfiles, liveEntries, List.map_map, List.forall₂_map_left_iff, List.forall₂_map_right_iff,
      List.forall₂_same]
    intro o ho
    obtain ⟨hmem, hin⟩ := List.mem_filter.mp ho
    have hfile : o.call.isMkdir = false := by
      rw [Bool.eq_false_iff]
      intro hmkdir
      have hroot := (size_of_isMkdir hmkdir).2
      rw [(of_decide_eq_true hin).1] at hroot
      exact Dir.noConfusion hroot
    have hlists := lists_entry h hm hnext hmem
    rwa [itemOf_report_of_file hfile] at hlists

/-! ### The sectors in front of the volume -/

/-- A call leaves the sectors alone that lie in front of the volume or far behind it. -/
theorem run_front (hm : MountedAt p s) (hdir : call.dir.Valid)
    (hr : call.run disk s = some (result, s')) (hk : 2 ^ 23 ≤ k) (hk' : k < 2 ^ 32) :
    s'.dev ((formattedVolume p).lba k) = s.dev ((formattedVolume p).lba k) := by
  have hmounted : MountedVolume s.vol := by
    rw [hm.vol]
    exact formattedVolume_mounted p
  obtain ⟨stored, s₁, hstore, hend⟩ := Call.run_cases hmounted hm.mounted hr
  have hvol : s₁.vol = formattedVolume p := (Call.store_follows hstore).vol.trans hm.vol
  have hfree : FreeIn s.vol {x | ∃ n < 65536, x = some n} s.dev := by
    intro n _ haddr _
    have hlt := haddr.lt
    rw [hm.vol, formatted_clusters] at hlt
    exact ⟨n, hlt, rfl⟩
  have hframe : s₁.dev ((formattedVolume p).lba k) = s.dev ((formattedVolume p).lba k) := by
    have hchanges :=
      Call.store_changesOnly hmounted (by rw [hm.vol, formatted_numFats]; omega) hfree
      (.inl (by rw [hm.vol, formatted_bytesPerSector])) hstore
    rw [hm.vol] at hchanges
    refine hchanges.sector k (by rw [formatted_rootOffset]; omega) hk' ?_
    rintro _ ⟨n, hn, rfl⟩ ⟨i, hi, rfl⟩
    rw [formatted_clusterOffset] at hk
    rw [formatted_sectorsPerCluster] at hi
    omega
  rcases hend with ⟨-, -, rfl⟩ | ⟨-, -, -, rfl, -⟩ | ⟨cluster, i, -, -, hi, -, -, rfl⟩
  · exact hframe
  · exact hframe
  · have hstart := hdir.start_lt (p := p)
    rw [hvol, call.base_eq] at *
    rw [call.sectors_eq] at hi
    exact (hdir.putSlot_lba hi hk' (.inr (by omega))).trans hframe

/-- A run of calls on known directories leaves them alone. -/
theorem callRun_front {ok : List (Call × Result) → Call → Prop} {s₀ : Fat16 Disk}
    {log : List (Call × Result)} (h : CallRun ok s₀ s log)
    (hok : ∀ log call, ok log call → OnKnown log call) (hm : MountedAt p s₀)
    (hs₀ : Stores p s₀.dev 2 []) (hk : 2 ^ 23 ≤ k) (hk' : k < 2 ^ 32) :
    s.dev ((formattedVolume p).lba k) = s₀.dev ((formattedVolume p).lba k) := by
  induction h with
  | start => rfl
  | call hrun hcall hr ih =>
    obtain ⟨hm', next, l, hstores, hlog⟩ := hrun.stores hok hm hs₀
    have hvalid := (hstores.dir_valid ((hok _ _ hcall).isDir hlog)).1
    exact (run_front hm' hvalid hr hk hk').trans ih

end

end AlderKernel.Shell
