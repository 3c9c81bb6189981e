import AlderKernel.Fs.VfsRuns

/-!
# The commands on the file system

`kernel/shell/fs_commands.c`. A command has no result when it follows a pointer at which no node
is. The current directory is always the one that its path names: the nodes on the way to it are
the first children with their names.
-/

namespace AlderKernel.Shell

open Machine Drivers Mm Fs

/-- `strcmp`. -/
def strcmp : List U8 → List U8 → ℕ
  | a :: as, b :: bs => if a ≠ b then 1 else strcmp as bs
  | [], [] => 0
  | _, _ => 1

/-- The loop of `command_ls`. -/
def listChildren (v : Vfs) : List U32 → Option (List U8)
  | [] => some []
  | child :: children =>
    (v.deref child).bind fun n =>
      (listChildren v children).map fun text =>
        n.name.val ++ (if n.type = .dir then chars "/" else []) ++ chars "\n" ++ text

/-- The end of `command_ls`. -/
def listDirectory (v : Vfs) (target : U32) : Option (List U8) :=
  (v.deref target).bind fun n =>
    if n.children.length = 0 then some (chars "(empty)\n") else listChildren v n.children

/-- `command_ls`. There is no argument for a null pointer. -/
def commandLs (arg : Option Str) (v : Vfs) : Option (List U8) :=
  match arg with
  | none => listDirectory v v.cwd
  | some arg =>
    if strcmp arg.val (chars "/") = 0 then listDirectory v v.root else
    if strcmp arg.val (chars "..") = 0 then
      (v.deref v.cwd).bind fun n => listDirectory v (if n.parent ≠ 0#32 then n.parent else v.cwd)
    else
      (vfsFindChild v v.cwd arg).bind fun found =>
        let notDirectory := chars "ls: not a directory: " ++ arg.val ++ chars "\n"
        if found = 0#32 then some notDirectory else
        (v.deref found).bind fun n =>
          if n.type ≠ .dir then some notDirectory else listDirectory v found

/-- `command_cd`. -/
def commandCd (arg : Option Str) (v : Vfs) : Option (Vfs × List U8) :=
  match arg with
  | none => some ({ v with cwd := v.root }, [])
  | some arg =>
    if strcmp arg.val (chars "/") = 0 then some ({ v with cwd := v.root }, []) else
    if strcmp arg.val (chars "..") = 0 then
      (v.deref v.cwd).map fun n =>
        (if n.parent ≠ 0#32 then { v with cwd := n.parent } else v, [])
    else
      (vfsFindChild v v.cwd arg).bind fun found =>
        let noDirectory := chars "cd: no such directory: " ++ arg.val ++ chars "\n"
        if found = 0#32 then some (v, noDirectory) else
        (v.deref found).map fun n =>
          if n.type ≠ .dir then (v, noDirectory) else ({ v with cwd := found }, [])

/-- `command_pwd`. -/
def commandPwd (v : Vfs) : Option (List U8) :=
  (vfsPrintCwdPath v).map fun path => path ++ chars "\n"

/-- `command_cat`. -/
def commandCat (arg : Option Str) (v : Vfs) : Option (List U8) :=
  match arg with
  | none => some (chars "Usage: cat <file>\n")
  | some arg =>
    (vfsFindChild v v.cwd arg).bind fun found =>
      let noFile := chars "cat: no such file: " ++ arg.val ++ chars "\n"
      if found = 0#32 then some noFile else
      (v.deref found).map fun n =>
        if n.type ≠ .file then noFile else n.content.val ++ chars "\n"

/-- A command of `fs_commands.c`. -/
inductive FsCommand where
  | ls (arg : Option Str)
  | cd (arg : Option Str)
  | pwd
  | cat (arg : Option Str)

/-- The command: the file system after it, and what it prints. -/
def FsCommand.run : FsCommand → Vfs → Option (Vfs × List U8)
  | ls arg, v => (commandLs arg v).map fun text => (v, text)
  | cd arg, v => commandCd arg v
  | pwd, v => (commandPwd v).map fun text => (v, text)
  | cat arg, v => (commandCat arg v).map fun text => (v, text)

/-- The components of the path of a directory. Each node on the way to it is the child that
`vfs_find_child` finds by its name. -/
inductive Path (v : Vfs) : U32 → List Str → Prop
  | root (h : v.IsDir v.root) : Path v v.root []
  | child {p c : U32} {path : List Str} {n : VfsNode} (h : Path v p path) (hc : v.deref c = some n)
      (hdir : n.type = .dir) (hparent : n.parent = p) (hfind : vfsFindChild v p n.name = some c) :
      Path v c (path ++ [n.name])

/-- The walk from a directory through `vfs_find_child`. -/
def walk (v : Vfs) : List Str → U32 → Option U32
  | [], p => some p
  | name :: path, p => (vfsFindChild v p name).bind (walk v path)

/-- How a path is printed. -/
def pathText (path : List Str) : List U8 :=
  if path = [] then chars "/" else path.flatMap fun name => chars "/" ++ name.val

/-- The second file system has the nodes of the first one, with the same first children. -/
structure Extends (v v' : Vfs) : Prop where
  root : v'.root = v.root
  node : ∀ q n, v.deref q = some n → ∃ n', v'.deref q = some n' ∧ n'.name = n.name ∧
    n'.type = n.type ∧ n'.parent = n.parent ∧ n.children <+: n'.children

section

variable {v v' : Vfs} {p q c : U32} {path path' : List Str} {name : Str} {l l' : List U32}
  {n : VfsNode}

/-! ### Searching a child -/

/-- `strcmp` gives 0 for equal strings only. -/
theorem strcmp_eq_zero {a b : List U8} : strcmp a b = 0 ↔ a = b := by
  induction a generalizing b with
  | nil => cases b <;> simp [strcmp]
  | cons x a ih =>
    cases b with
    | nil => simp [strcmp]
    | cons y b => by_cases hxy : x = y <;> simp [strcmp, hxy, ih]

/-- `str_eq` holds for equal strings only. -/
theorem strEq_iff {a b : List U8} : strEq a b = true ↔ a = b := by
  induction a generalizing b with
  | nil => cases b <;> simp [strEq]
  | cons x a ih =>
    cases b with
    | nil => simp [strEq]
    | cons y b => by_cases hxy : x = y <;> simp [strEq, hxy, ih]

/-- A child that is found has the name. -/
theorem findChildFrom_some (h : findChildFrom v name l = some c) (hc : c ≠ 0#32) :
    c ∈ l ∧ ∃ n, v.deref c = some n ∧ n.name = name := by
  induction l with
  | nil => exact absurd (Option.some.inj h).symm hc
  | cons child l ih =>
    obtain ⟨n, hn, hrest⟩ := Option.bind_eq_some_iff.mp h
    split_ifs at hrest with heq
    · obtain rfl := Option.some.inj hrest
      exact ⟨List.mem_cons_self, n, hn, Subtype.ext (strEq_iff.mp heq)⟩
    · obtain ⟨hmem, hnode⟩ := ih hrest
      exact ⟨List.mem_cons_of_mem _ hmem, hnode⟩

/-- The search ends when all children are nodes. -/
theorem findChildFrom_ends (h : ∀ c ∈ l, ∃ n, v.deref c = some n) (name : Str) :
    ∃ c, findChildFrom v name l = some c := by
  induction l with
  | nil => exact ⟨0#32, rfl⟩
  | cons child l ih =>
    obtain ⟨n, hn⟩ := h child List.mem_cons_self
    obtain ⟨c, hc⟩ := ih fun c hc => h c (List.mem_cons_of_mem _ hc)
    by_cases heq : strEq n.name.val name.val = true
    · exact ⟨child, by simp [findChildFrom, hn, heq]⟩
    · exact ⟨c, by simp [findChildFrom, hn, heq, hc]⟩

/-- More children behind the others do not change what is found. -/
theorem Extends.findChildFrom (h : Extends v v') (hc : c ≠ 0#32)
    (hfind : findChildFrom v name l = some c) (hfront : l <+: l') :
    findChildFrom v' name l' = some c := by
  obtain ⟨more, rfl⟩ := hfront
  induction l with
  | nil => exact absurd (Option.some.inj hfind).symm hc
  | cons child l ih =>
    obtain ⟨n, hn, hrest⟩ := Option.bind_eq_some_iff.mp hfind
    obtain ⟨n', hn', hname, -⟩ := h.node child n hn
    split_ifs at hrest with heq
    · simpa [Fs.findChildFrom, hn', hname, heq] using hrest
    · simpa [Fs.findChildFrom, hn', hname, heq] using ih hrest

/-- A child is still found when nodes were added. -/
theorem Extends.findChild (h : Extends v v') (hc : c ≠ 0#32)
    (hfind : vfsFindChild v p name = some c) : vfsFindChild v' p name = some c := by
  obtain ⟨n, hn, hrest⟩ := Option.bind_eq_some_iff.mp hfind
  obtain ⟨n', hn', -, -, -, hfront⟩ := h.node p n hn
  simpa [vfsFindChild, hn'] using h.findChildFrom hc hrest hfront

/-! ### Paths -/

/-- A path ends in a directory. -/
theorem Path.isDir (h : Path v p path) : v.IsDir p := by
  cases h with
  | root h => exact h
  | child _ hc hdir => exact ⟨_, hc, hdir⟩

/-- A path leads to a node. -/
theorem Path.ne_zero (h : Path v p path) : p ≠ 0#32 := by
  obtain ⟨n, hn, -⟩ := h.isDir
  exact Vfs.ne_zero_of_deref hn

/-- A path stays valid when the file system grows. -/
theorem Path.extends (h : Path v p path) (hext : Extends v v') : Path v' p path := by
  have hdir {q : U32} (hq : v.IsDir q) : v'.IsDir q := by
    obtain ⟨n, hn, htype⟩ := hq
    obtain ⟨n', hn', -, htype', -⟩ := hext.node q n hn
    exact ⟨n', hn', htype'.trans htype⟩
  induction h with
  | root h =>
    rw [← hext.root]
    exact .root (by rw [hext.root]; exact hdir h)
  | @child p c path n h hc htype hparent hfind ih =>
    obtain ⟨n', hn', hname, htype', hparent', -⟩ := hext.node c n hc
    rw [← hname] at hfind ⊢
    exact .child ih hn' (htype'.trans htype) (hparent'.trans hparent)
      (hext.findChild (Vfs.ne_zero_of_deref hc) hfind)

/-- The walk one component further. -/
theorem walk_concat (v : Vfs) (path : List Str) (name : Str) (p : U32) :
    walk v (path ++ [name]) p = (walk v path p).bind fun q => vfsFindChild v q name := by
  induction path generalizing p with
  | nil => simp [walk]
  | cons first path ih =>
    simp only [List.cons_append, walk, Option.bind_assoc]
    exact congrArg _ (funext ih)

/-- The walk along a path leads to its end. -/
theorem Path.walk (h : Path v p path) : walk v path v.root = some p := by
  induction h with
  | root => rfl
  | child _ _ _ _ hfind ih => rw [walk_concat, ih, Option.bind_some, hfind]

/-- The way to a node is the root's or passes its parent. -/
theorem Path.cases_parent (h : Path v p path) (htree : v.Tree) (hn : v.deref p = some n) :
    (p = v.root ∧ path = [] ∧ n.parent = 0#32) ∨ ∃ path', path = path' ++ [n.name] ∧
      Path v n.parent path' := by
  cases h with
  | root h =>
    obtain ⟨r, hr, -, hzero⟩ := htree.root (Vfs.ne_zero_of_deref hn)
    obtain rfl := Option.some.inj (hr.symm.trans hn)
    exact .inl ⟨rfl, rfl, hzero⟩
  | child h hc hdir hparent hfind =>
    obtain rfl := Option.some.inj (hc.symm.trans hn)
    exact .inr ⟨_, rfl, hparent ▸ h⟩

/-- A node has one path. -/
theorem Path.unique (h : Path v p path) (htree : v.Tree) (h' : Path v p path') : path = path' := by
  induction h generalizing path' with
  | root h =>
    obtain ⟨r, hr, -⟩ := h
    obtain ⟨-, hnil, -⟩ | ⟨path'', -, hpath⟩ := h'.cases_parent htree hr
    · exact hnil.symm
    · obtain ⟨r', hr', -, hzero⟩ := htree.root (Vfs.ne_zero_of_deref hr)
      obtain rfl := Option.some.inj (hr'.symm.trans hr)
      exact absurd hzero hpath.ne_zero
  | child h hc hdir hparent hfind ih =>
    obtain ⟨-, -, hzero⟩ | ⟨path'', rfl, hpath⟩ := h'.cases_parent htree hc
    · exact absurd (hparent.symm.trans hzero) h.ne_zero
    · rw [hparent] at hpath
      rw [ih hpath]

/-- Each front part of a path is the path of a node. -/
theorem Path.take (h : Path v p path) (k : ℕ) : ∃ q, Path v q (path.take k) := by
  induction h with
  | root h => exact ⟨v.root, by simpa using .root h⟩
  | @child p c path n h hc hdir hparent hfind ih =>
    by_cases hk : k ≤ path.length
    · rwa [List.take_append_of_le_length hk]
    · refine ⟨c, ?_⟩
      rw [List.take_of_length_le (by simp; omega)]
      exact .child h hc hdir hparent hfind

/-- A path is shorter than the number of addresses. -/
theorem Path.length_lt (h : Path v p path) (htree : v.Tree) : path.length < 2 ^ 32 := by
  choose node hnode using h.take
  have hinj : Set.InjOn (fun k => (node k).toNat) (Finset.range (path.length + 1)) := by
    intro i hi j hj heq
    have hsame := (BitVec.eq_of_toNat_eq heq ▸ hnode i).unique htree (hnode j)
    have hlength := congrArg List.length hsame
    simp only [List.length_take, Finset.coe_range, Set.mem_Iio] at hlength hi hj
    omega
  have hcard := Finset.card_le_card_of_injOn (t := Finset.range (2 ^ 32)) _
    (fun k _ => Finset.mem_coe.mpr (Finset.mem_range.mpr (node k).isLt)) hinj
  rw [Finset.card_range, Finset.card_range] at hcard
  omega

/-- `print_path_recursive` prints the path, in as many turns as it has nodes. -/
theorem Path.print (h : Path v p path) (htree : v.Tree) {turns : ℕ} (hturns : path.length < turns) :
    printPathRecursive v turns p = some (path.flatMap fun name => chars "/" ++ name.val) := by
  induction h generalizing turns with
  | root h =>
    obtain ⟨n, hn, -⟩ := h
    obtain ⟨r, hr, -, hzero⟩ := htree.root (Vfs.ne_zero_of_deref hn)
    obtain ⟨turns, rfl⟩ := Nat.exists_eq_succ_of_ne_zero (Nat.ne_of_gt hturns)
    simp [printPathRecursive, hr, hzero]
  | @child p c path n h hc hdir hparent hfind ih =>
    rw [List.length_append, List.length_singleton] at hturns
    obtain ⟨turns, rfl⟩ := Nat.exists_eq_succ_of_ne_zero (Nat.ne_of_gt (Nat.zero_lt_of_lt hturns))
    have hprint : printPathRecursive v turns p = _ := ih (by omega)
    simp [printPathRecursive, hc, hparent, h.ne_zero, hprint]

/-- `vfs_print_cwd_path` prints the path of the current directory. -/
theorem Path.printCwd (h : Path v v.cwd path) (htree : v.Tree) :
    vfsPrintCwdPath v = some (pathText path) := by
  unfold vfsPrintCwdPath pathText
  by_cases hroot : v.cwd = v.root
  · have hnil : path = [] := h.unique htree (by rw [hroot]; exact .root (hroot ▸ h.isDir))
    rw [if_pos hroot, if_pos hnil]
  · have hne : path ≠ [] := by
      rintro rfl
      generalize hp : v.cwd = p at h
      generalize hnil : ([] : List Str) = path at h
      cases h with
      | root => exact hroot hp
      | child => simp at hnil
    rw [if_neg hroot, if_neg hne]
    exact h.print htree (h.length_lt htree)

end

end AlderKernel.Shell
