import AlderKernel.Shell.FsRuns

/-!
# The file system in memory as a map of paths

What a path leads to, as a function of the path. `ls`, `cd`, `pwd` and `cat` of
`kernel/shell/fs_commands.c` work on this map: on the nodes in the heap they print and move as they
do on the paths.
-/

namespace AlderKernel.Shell

open Machine Drivers Mm Fs

/-- What is at the end of a path: the text of a file, or the names in a directory with the ones of
directories marked. -/
inductive RamEntry where
  | file (content : List U8)
  | directory (names : List (List U8 × Bool))

/-- The files and directories in memory by their paths. -/
abbrev RamTree := List Str → Option RamEntry

/-- How the names in a directory are printed. -/
def namesText (names : List (List U8 × Bool)) : List U8 :=
  if names = [] then chars "(empty)\n" else
  names.flatMap fun x => x.1 ++ (if x.2 then chars "/" else []) ++ chars "\n"

namespace RamTree

variable (t : RamTree) (cwd : List Str)

/-- The listing of a directory. -/
def listing (path : List Str) : List U8 :=
  match t path with
  | some (.directory names) => namesText names
  | _ => []

/-- What `ls` prints. -/
def lsText : Option Str → List U8
  | none => t.listing cwd
  | some arg =>
    if arg.val = chars "/" then t.listing []
    else if arg.val = chars ".." then t.listing cwd.dropLast
    else match t (cwd ++ [arg]) with
      | some (.directory names) => namesText names
      | _ => chars "ls: not a directory: " ++ arg.val ++ chars "\n"

/-- Where `cd` leads to, and what it prints. -/
def cd : Option Str → List Str × List U8
  | none => ([], [])
  | some arg =>
    if arg.val = chars "/" then ([], [])
    else if arg.val = chars ".." then (cwd.dropLast, [])
    else match t (cwd ++ [arg]) with
      | some (.directory _) => (cwd ++ [arg], [])
      | _ => (cwd, chars "cd: no such directory: " ++ arg.val ++ chars "\n")

/-- What `cat` prints. -/
def catText : Option Str → List U8
  | none => chars "Usage: cat <file>\n"
  | some arg =>
    match t (cwd ++ [arg]) with
    | some (.file content) => content ++ chars "\n"
    | _ => chars "cat: no such file: " ++ arg.val ++ chars "\n"

end RamTree

/-- The names of children. -/
def namesOf (v : Vfs) (children : List U32) : List (List U8 × Bool) :=
  children.filterMap fun c => (v.deref c).map fun m => (m.name.val, decide (m.type = .dir))

/-- What a node stands for. -/
def entryOf (v : Vfs) (n : VfsNode) : RamEntry :=
  match n.type with
  | .file => .file n.content.val
  | .dir => .directory (namesOf v n.children)

/-- What the paths lead to. -/
def ramOf (v : Vfs) : RamTree := fun path =>
  (walk v path v.root).bind fun p => (v.deref p).map (entryOf v)

section

variable {v : Vfs} {p : U32} {path : List Str} {n : VfsNode} {name : Str}

/-- The tree in memory has the node of a path. -/
theorem ramOf_path (h : Path v p path) (hn : v.deref p = some n) :
    ramOf v path = some (entryOf v n) := by
  unfold ramOf
  rw [h.walk, Option.bind_some, hn, Option.map_some]

/-- One component further is the child that `vfs_find_child` finds. -/
theorem ramOf_child (h : Path v p path) (name : Str) : ramOf v (path ++ [name]) =
    (vfsFindChild v p name).bind fun c => (v.deref c).map (entryOf v) := by
  unfold ramOf
  rw [walk_concat, h.walk, Option.bind_some]

/-- The names of children, by the first child. -/
theorem namesOf_cons {c : U32} {m : VfsNode} (hm : v.deref c = some m) (children : List U32) :
    namesOf v (c :: children) = (m.name.val, decide (m.type = .dir)) :: namesOf v children := by
  simp [namesOf, hm]

/-- The text of `ls` has a line for each child. -/
theorem listChildren_text {children : List U32} (h : ∀ c ∈ children, ∃ m, v.deref c = some m) :
    listChildren v children = some ((namesOf v children).flatMap fun x =>
      x.1 ++ (if x.2 then chars "/" else []) ++ chars "\n") := by
  induction children with
  | nil => rfl
  | cons c children ih =>
    obtain ⟨m, hm⟩ := h c List.mem_cons_self
    have hrest := ih fun c hc => h c (List.mem_cons_of_mem _ hc)
    rw [namesOf_cons hm, List.flatMap_cons]
    simp only [listChildren, hm, hrest, Option.bind_some, Option.map_some, decide_eq_true_eq]

/-- A directory is listed as its path says. -/
theorem listDirectory_text (htree : v.Tree) (h : Path v p path) :
    listDirectory v p = some ((ramOf v).listing path) := by
  obtain ⟨n, hn, htype⟩ := h.isDir
  have hnodes (c : U32) (hc : c ∈ n.children) : ∃ m, v.deref c = some m :=
    (htree.children p n hn c hc).imp fun _ hm => hm.1
  unfold listDirectory RamTree.listing
  rw [ramOf_path h hn, hn, Option.bind_some]
  simp only [entryOf, htype, namesText]
  cases hchildren : n.children with
  | nil => rfl
  | cons c children =>
    rw [hchildren] at hnodes
    obtain ⟨m, hm⟩ := hnodes c List.mem_cons_self
    rw [if_neg (by simp), listChildren_text hnodes, if_neg (by simp [namesOf_cons hm])]

/-- The node that `ls`, `cd` and `cat` find for a name in the current directory. -/
theorem findChild_ram (htree : v.Tree) (h : Path v p path) (name : Str) :
    ∃ c, vfsFindChild v p name = some c ∧
      (c = 0#32 ∧ ramOf v (path ++ [name]) = none ∨
        ∃ m, v.deref c = some m ∧ m.name = name ∧ m.parent = p ∧
          ramOf v (path ++ [name]) = some (entryOf v m)) := by
  obtain ⟨n, hn, -⟩ := h.isDir
  obtain ⟨c, hfind, hc⟩ := findChild_outcome htree hn name
  have hram := ramOf_child h name
  rw [hfind, Option.bind_some] at hram
  refine ⟨c, hfind, hc.imp (fun hnull => ⟨hnull, ?_⟩) fun ⟨m, hm, hname, hparent⟩ =>
    ⟨m, hm, hname, hparent, ?_⟩⟩
  · rw [hram, hnull]
    rfl
  · rw [hram, hm, Option.map_some]

/-- The path of the parent. -/
theorem parent_path (htree : v.Tree) (h : Path v p path) (hn : v.deref p = some n) :
    Path v (if n.parent ≠ 0#32 then n.parent else p) path.dropLast := by
  obtain ⟨-, rfl, hzero⟩ | ⟨path', rfl, hparent⟩ := h.cases_parent htree hn
  · rwa [if_neg (not_not_intro hzero)]
  · rwa [if_pos hparent.ne_zero, List.dropLast_concat]

/-- `ls` prints what the paths say. -/
theorem commandLs_ram (htree : v.Tree) (hroot : v.IsDir v.root) (h : Path v v.cwd path)
    (arg : Option Str) : commandLs arg v = some ((ramOf v).lsText path arg) := by
  cases arg with
  | none => exact listDirectory_text htree h
  | some arg =>
    obtain ⟨n, hn, -⟩ := h.isDir
    unfold commandLs RamTree.lsText
    simp only [strcmp_eq_zero]
    by_cases hslash : arg.val = chars "/"
    · rw [if_pos hslash, if_pos hslash]
      exact listDirectory_text htree (.root hroot)
    rw [if_neg hslash, if_neg hslash]
    by_cases hdots : arg.val = chars ".."
    · rw [if_pos hdots, if_pos hdots, hn, Option.bind_some]
      exact listDirectory_text htree (parent_path htree h hn)
    rw [if_neg hdots, if_neg hdots]
    obtain ⟨c, hfind, ⟨rfl, hram⟩ | ⟨m, hm, hname, hparent, hram⟩⟩ := findChild_ram htree h arg
    · rw [hfind, Option.bind_some, if_pos rfl, hram]
    · rw [hfind, Option.bind_some, if_neg (Vfs.ne_zero_of_deref hm), hm, Option.bind_some, hram]
      by_cases hdir : m.type = .dir
      · have hpath : Path v c (path ++ [m.name]) := .child h hm hdir hparent (hname ▸ hfind)
        rw [hname] at hpath
        rw [if_neg (not_not_intro hdir), listDirectory_text htree hpath]
        simp only [RamTree.listing, hram, entryOf, hdir]
      · have hfile : m.type = .file := by
          cases htype : m.type with
          | dir => exact absurd htype hdir
          | file => rfl
        rw [if_pos hdir]
        simp only [entryOf, hfile]

/-- `cd` moves as the paths say. -/
theorem commandCd_ram (htree : v.Tree) (hroot : v.IsDir v.root) (h : Path v v.cwd path)
    (arg : Option Str) : ∃ q, commandCd arg v =
      some ({ v with cwd := q }, ((ramOf v).cd path arg).2) ∧
        Path v q ((ramOf v).cd path arg).1 := by
  cases arg with
  | none => exact ⟨v.root, rfl, .root hroot⟩
  | some arg =>
    obtain ⟨n, hn, -⟩ := h.isDir
    unfold commandCd RamTree.cd
    simp only [strcmp_eq_zero]
    by_cases hslash : arg.val = chars "/"
    · rw [if_pos hslash, if_pos hslash]
      exact ⟨v.root, rfl, .root hroot⟩
    rw [if_neg hslash, if_neg hslash]
    by_cases hdots : arg.val = chars ".."
    · rw [if_pos hdots, if_pos hdots, hn, Option.map_some]
      have hparent := parent_path htree h hn
      by_cases hzero : n.parent ≠ 0#32
      · rw [if_pos hzero] at hparent ⊢
        exact ⟨n.parent, rfl, hparent⟩
      · rw [if_neg hzero] at hparent ⊢
        exact ⟨v.cwd, rfl, hparent⟩
    rw [if_neg hdots, if_neg hdots]
    obtain ⟨c, hfind, ⟨rfl, hram⟩ | ⟨m, hm, hname, hparent, hram⟩⟩ := findChild_ram htree h arg
    · rw [hfind, Option.bind_some, if_pos rfl, hram]
      exact ⟨v.cwd, rfl, h⟩
    · rw [hfind, Option.bind_some, if_neg (Vfs.ne_zero_of_deref hm), hm, Option.map_some, hram]
      cases htype : m.type with
      | dir =>
        refine ⟨c, by simp [entryOf, htype], ?_⟩
        simp only [entryOf, htype]
        have hpath : Path v c (path ++ [m.name]) := .child h hm htype hparent (hname ▸ hfind)
        rwa [hname] at hpath
      | file =>
        refine ⟨v.cwd, by simp [entryOf, htype], ?_⟩
        simp only [entryOf, htype]
        exact h

/-- `cat` prints what the paths say. -/
theorem commandCat_ram (htree : v.Tree) (h : Path v v.cwd path) (arg : Option Str) :
    commandCat arg v = some ((ramOf v).catText path arg) := by
  cases arg with
  | none => rfl
  | some arg =>
    unfold commandCat RamTree.catText
    dsimp only
    obtain ⟨c, hfind, ⟨rfl, hram⟩ | ⟨m, hm, -, -, hram⟩⟩ := findChild_ram htree h arg
    · rw [hfind, Option.bind_some]
      simp only [if_true, hram]
    · rw [hfind, Option.bind_some]
      simp only [if_neg (Vfs.ne_zero_of_deref hm), hm, Option.map_some, hram]
      cases htype : m.type with
      | dir => simp [entryOf, htype]
      | file => simp [entryOf, htype]

end

end AlderKernel.Shell
