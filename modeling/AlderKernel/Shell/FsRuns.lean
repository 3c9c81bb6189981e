import AlderKernel.Shell.FsCommands

/-!
# The shell on the file system

The current directory over whole runs of calls and commands, and the commands after a boot. When
the boot leaves no free page, `vfs_init` cannot create the root, and does not notice.
-/

namespace AlderKernel.Shell

open Machine Drivers Mm Fs

/-- The file systems that calls on existing directories and commands lead to. -/
inductive FsRun (v₀ : Vfs) : Vfs → Prop
  | start : FsRun v₀ v₀
  | call {v v' : Vfs} {ptr : U32} (h : FsRun v₀ v) (c : VfsCall) (hdir : v.IsDir c.parent)
      (hrun : c.run v = some (ptr, v')) : FsRun v₀ v'
  | command {v v' : Vfs} {text : List U8} (h : FsRun v₀ v) (cmd : FsCommand)
      (hrun : cmd.run v = some (v', text)) : FsRun v₀ v'

/-- The root is a directory, and the current directory has a path. -/
structure Anchored (start : Pmm) (v : Vfs) : Prop where
  allocated : v.Allocated start
  tree : v.Tree
  root : v.IsDir v.root
  cwd : ∃ path, Path v v.cwd path

/-- `MULTIBOOT_BOOTLOADER_MAGIC`. -/
def multibootBootloaderMagic : U32 := 0x2BADB002#32

/-- What `kernel_start` does with the memory and the file system before the shell starts. -/
def kernelStart (m : Memory) (kernelEnd : U32) (turns : ℕ) (multibootMagic multibootInfoAddr : U32)
    (boot : Pmm) : Option Vfs :=
  (pmmInit m kernelEnd turns (if multibootMagic ≠ multibootBootloaderMagic then 0#32
    else multibootInfoAddr) boot).bind fun pmm =>
  (heapInit ⟨m, pmm, 0#32, 0#32, 0#32⟩).bind fun heap => vfsInit (.start heap)

/-- Commands one after the other. -/
def runCommands : List FsCommand → Vfs → Option Vfs
  | [], v => some v
  | cmd :: cmds, v => (cmd.run v).bind fun r => runCommands cmds r.1

/-- Whatever commands are run, they follow no null pointer, and the root and the current directory
are directories. -/
def NeverNull (v : Vfs) : Prop :=
  ∀ cmds, ∃ v', runCommands cmds v = some v' ∧ v'.IsDir v'.root ∧ v'.IsDir v'.cwd

section

variable {start : Pmm} {v v' : Vfs} {p q ptr : U32} {path : List Str} {n node : VfsNode}
  {heap : Heap} {live : Set U32}

/-! ### What the calls do to the paths -/

/-- Adding a node extends the file system. -/
theorem Extends.adds (h : v.Adds node ptr v') : Extends v v' where
  root := h.root
  node q n hq := by
    refine ⟨_, h.kept hq, ?_⟩
    split_ifs
    · refine ⟨by simp, by simp, by simp, ?_⟩
      by_cases hroom : n.children.length < vfsMaxChildren
      · rw [VfsNode.addChild_of_lt hroom]
        exact List.prefix_append _ _
      · rw [VfsNode.addChild_of_le (Nat.not_lt.mp hroom)]
    · exact ⟨rfl, rfl, rfl, List.prefix_rfl⟩

/-- Changing the current directory keeps the nodes. -/
theorem Extends.setCwd (v : Vfs) (q : U32) : Extends v { v with cwd := q } where
  root := rfl
  node _ n hn := ⟨n, hn, rfl, rfl, rfl, List.prefix_rfl⟩

/-- `vfs_set_cwd` to a directory with a path. -/
theorem Anchored.setCwd (h : Anchored start v) (hq : Path v q path) :
    Anchored start { v with cwd := q } :=
  ⟨h.allocated, ⟨h.tree.root, h.tree.parent, h.tree.children⟩, h.root, path,
    hq.extends (.setCwd v q)⟩

/-- After `vfs_init` the current directory is the root. -/
theorem Anchored.init (hheap : Reachable start heap live) (hpos : ∀ q, start.Free q → q ≠ 0#32)
    (hinit : vfsInit (.start heap) = some v) (hroot : v.root ≠ 0#32) : Anchored start v := by
  obtain ⟨v', hinit', hallocated, htree, -, hcwd, hdir, -⟩ := vfsInit_spec hheap hpos
  obtain rfl := Option.some.inj (hinit'.symm.trans hinit)
  obtain ⟨-, rfl⟩ | hdir := hdir
  · exact absurd rfl hroot
  · exact ⟨hallocated, htree, hdir, [], hcwd ▸ .root hdir⟩

/-- A call on an existing directory. -/
theorem Anchored.call {c : VfsCall} (h : Anchored start v) (hpos : ∀ q, start.Free q → q ≠ 0#32)
    (hdir : v.IsDir c.parent) (hrun : c.run v = some (ptr, v')) : Anchored start v' := by
  obtain ⟨p, hp, hp'⟩ := hdir
  obtain ⟨-, rfl⟩ | ⟨hadds, hallocated⟩ := VfsCall.run_outcome h.allocated hpos hp hrun
  · exact h
  · obtain ⟨path, hpath⟩ := h.cwd
    have hparent : v.IsDir c.node.parent := ⟨p, by rwa [c.node_parent], hp'⟩
    refine ⟨hallocated, hadds.tree h.tree hparent c.node_children, ?_, path, ?_⟩
    · rw [hadds.root]
      exact hadds.isDir h.root
    · rw [hadds.cwd]
      exact hpath.extends (.adds hadds)

/-! ### The commands -/

/-- `vfs_find_child` finds a child, or the null pointer. -/
theorem findChild_outcome (htree : v.Tree) (hp : v.deref p = some n) (name : Str) :
    ∃ c, vfsFindChild v p name = some c ∧
      (c = 0#32 ∨ ∃ m, v.deref c = some m ∧ m.name = name ∧ m.parent = p) := by
  have hnodes (c : U32) (hc : c ∈ n.children) : ∃ m, v.deref c = some m :=
    (htree.children p n hp c hc).imp fun _ hm => hm.1
  obtain ⟨c, hfind⟩ := findChildFrom_ends hnodes name
  refine ⟨c, by simp [vfsFindChild, hp, hfind], ?_⟩
  by_cases hc : c = 0#32
  · exact .inl hc
  · obtain ⟨hmem, m, hm, hname⟩ := findChildFrom_some hfind hc
    obtain ⟨m', hm', hparent⟩ := htree.children p n hp c hmem
    obtain rfl := Option.some.inj (hm'.symm.trans hm)
    exact .inr ⟨m', hm, hname, hparent⟩

/-- `command_cd` moves to a directory that has a path. -/
theorem Anchored.cd (h : Anchored start v) (arg : Option Str) :
    ∃ q text path, commandCd arg v = some ({ v with cwd := q }, text) ∧ Path v q path := by
  obtain ⟨path, hpath⟩ := h.cwd
  obtain ⟨n, hn, htype⟩ := hpath.isDir
  cases arg with
  | none => exact ⟨v.root, [], [], rfl, .root h.root⟩
  | some arg =>
    unfold commandCd
    dsimp only
    split_ifs
    · exact ⟨v.root, [], [], rfl, .root h.root⟩
    · by_cases hparent : n.parent = 0#32
      · exact ⟨v.cwd, [], path, by simp [hn, hparent], hpath⟩
      · obtain ⟨-, -, hzero⟩ | ⟨path', -, hpath'⟩ := hpath.cases_parent h.tree hn
        · exact absurd hzero hparent
        · exact ⟨n.parent, [], path', by simp [hn, hparent], hpath'⟩
    · obtain ⟨c, hfind, rfl | ⟨m, hm, hname, hparent⟩⟩ := findChild_outcome h.tree hn arg
      · simp only [hfind, Option.bind_some, if_true]
        exact ⟨v.cwd, _, path, rfl, hpath⟩
      · have hc := Vfs.ne_zero_of_deref hm
        simp only [hfind, Option.bind_some, hc, if_false, hm, Option.map_some]
        by_cases hdir : m.type = .dir
        · refine ⟨c, [], path ++ [m.name], by simp [hdir], ?_⟩
          exact .child hpath hm hdir hparent (hname ▸ hfind)
        · rw [if_pos hdir]
          exact ⟨v.cwd, _, path, rfl, hpath⟩

/-- `command_ls` of a directory ends. -/
theorem listDirectory_ends (htree : v.Tree) (hp : v.deref p = some n) :
    ∃ text, listDirectory v p = some text := by
  have hlist (l : List U32) (hl : ∀ c ∈ l, ∃ m, v.deref c = some m) :
      ∃ text, listChildren v l = some text := by
    induction l with
    | nil => exact ⟨[], rfl⟩
    | cons c l ih =>
      obtain ⟨m, hm⟩ := hl c List.mem_cons_self
      obtain ⟨text, htext⟩ := ih fun c hc => hl c (List.mem_cons_of_mem _ hc)
      simp [listChildren, hm, htext]
  obtain ⟨text, htext⟩ :=
    hlist n.children fun c hc => (htree.children p n hp c hc).imp fun _ hm => hm.1
  by_cases hempty : n.children.length = 0
  · simp [listDirectory, hp, List.length_eq_zero_iff.mp hempty]
  · simp only [listDirectory, hp, Option.bind_some, hempty, if_false, htext]
    exact ⟨text, rfl⟩

/-- `ls` returns. -/
theorem Anchored.ls (h : Anchored start v) (arg : Option Str) :
    ∃ text, commandLs arg v = some text := by
  obtain ⟨path, hpath⟩ := h.cwd
  obtain ⟨n, hn, -⟩ := hpath.isDir
  obtain ⟨r, hr, -⟩ := h.root
  cases arg with
  | none => exact listDirectory_ends h.tree hn
  | some arg =>
    unfold commandLs
    dsimp only
    split_ifs
    · exact listDirectory_ends h.tree hr
    · rw [hn, Option.bind_some]
      split_ifs with hparent
      · obtain ⟨-, -, hzero⟩ | ⟨path', -, hpath'⟩ := hpath.cases_parent h.tree hn
        · exact absurd hzero hparent
        · obtain ⟨m, hm, -⟩ := hpath'.isDir
          exact listDirectory_ends h.tree hm
      · exact listDirectory_ends h.tree hn
    · obtain ⟨c, hfind, rfl | ⟨m, hm, -⟩⟩ := findChild_outcome h.tree hn arg
      · simp [hfind]
      · have hc := Vfs.ne_zero_of_deref hm
        simp only [hfind, Option.bind_some, hc, if_false, hm]
        split_ifs
        · exact ⟨_, rfl⟩
        · exact listDirectory_ends h.tree hm

/-- `cat` returns. -/
theorem Anchored.cat (h : Anchored start v) (arg : Option Str) :
    ∃ text, commandCat arg v = some text := by
  obtain ⟨path, hpath⟩ := h.cwd
  obtain ⟨n, hn, -⟩ := hpath.isDir
  cases arg with
  | none => exact ⟨_, rfl⟩
  | some arg =>
    unfold commandCat
    obtain ⟨c, hfind, rfl | ⟨m, hm, -⟩⟩ := findChild_outcome h.tree hn arg
    · simp [hfind]
    · simp [hfind, Vfs.ne_zero_of_deref hm, hm]

/-- Every command ends, and leaves a current directory that has a path. -/
theorem Anchored.command (h : Anchored start v) (cmd : FsCommand) :
    ∃ v' text, cmd.run v = some (v', text) ∧ Anchored start v' := by
  cases cmd with
  | ls arg =>
    obtain ⟨text, htext⟩ := h.ls arg
    exact ⟨v, text, by simp [FsCommand.run, htext], h⟩
  | cd arg =>
    obtain ⟨q, text, path, hrun, hpath⟩ := h.cd arg
    exact ⟨_, text, hrun, h.setCwd hpath⟩
  | pwd =>
    obtain ⟨path, hpath⟩ := h.cwd
    have hprint := hpath.printCwd h.tree
    exact ⟨v, pathText path ++ chars "\n", by simp [FsCommand.run, commandPwd, hprint], h⟩
  | cat arg =>
    obtain ⟨text, htext⟩ := h.cat arg
    exact ⟨v, text, by simp [FsCommand.run, htext], h⟩

/-- A whole run of calls and commands. -/
theorem FsRun.anchored {v₀ : Vfs} (h : FsRun v₀ v) (hpos : ∀ q, start.Free q → q ≠ 0#32)
    (hstart : Anchored start v₀) : Anchored start v := by
  induction h with
  | start => exact hstart
  | call _ c hdir hrun ih => exact ih.call hpos hdir hrun
  | command _ cmd hrun ih =>
    obtain ⟨v', text, hrun', hanchored⟩ := ih.command cmd
    obtain ⟨rfl, -⟩ := Prod.mk.inj (Option.some.inj (hrun'.symm.trans hrun))
    exact hanchored

/-- Any commands can be run. -/
theorem Anchored.neverNull (h : Anchored start v) : NeverNull v := by
  intro cmds
  induction cmds generalizing v with
  | nil =>
    obtain ⟨path, hpath⟩ := h.cwd
    exact ⟨v, rfl, h.root, hpath.isDir⟩
  | cons cmd cmds ih =>
    obtain ⟨v₁, text, hrun, hanchored⟩ := h.command cmd
    obtain ⟨v₂, hrest, hdirs⟩ := ih hanchored
    exact ⟨v₂, by simp [runCommands, hrun, hrest], hdirs⟩

end

/-- The current directory is the one that its path names. After a `vfs_init` that got memory for the
root, in any run of calls on existing directories and of commands, the current directory is a
directory. Its parents lead to the root, `vfs_print_cwd_path` prints the names on this way, and each
node on it is the child that `vfs_find_child` finds by its name, so that the walk from the root
along the printed names ends in it. -/
theorem cwd_named {m : Memory} {kernelEnd multibootInfoAddr : U32} {turns : ℕ} {boot start : Pmm}
    {heap : Heap} {live : Set U32} {v₀ v : Vfs}
    (hpmm : pmmInit m kernelEnd turns multibootInfoAddr boot = some start)
    (hheap : Reachable start heap live) (hinit : vfsInit (.start heap) = some v₀)
    (hroot : v₀.root ≠ 0#32) (hrun : FsRun v₀ v) :
    v.IsDir v.cwd ∧ ∃ path, Path v v.cwd path ∧ vfsPrintCwdPath v = some (pathText path) ∧
      walk v path v.root = some v.cwd := by
  have hpos := free_ne_zero hpmm
  have hanchored := hrun.anchored hpos (.init hheap hpos hinit hroot)
  obtain ⟨path, hpath⟩ := hanchored.cwd
  exact ⟨hpath.isDir, path, hpath, hpath.printCwd hanchored.tree, hpath.walk⟩

/-- After the boot with one region, and then `mkdir` and `cd`. -/
theorem oneRegion_cwd_named : ∃ start heap v₀ v ptr,
    pmmInit oneRegion 0x180000#32 2 0x1000#32 ⟨fun _ => 0#8, 0#32⟩ = some start ∧
      vfsInit (.start heap) = some v₀ ∧ (∃ v₁ text,
        (VfsCall.mkdir v₀.root ⟨chars "a", by decide⟩).run v₀ = some (ptr, v₁) ∧ ptr ≠ 0#32 ∧
          (FsCommand.cd (some ⟨chars "a", by decide⟩)).run v₁ = some (v, text)) ∧
      v.IsDir v.cwd ∧ ∃ path, Path v v.cwd path ∧ vfsPrintCwdPath v = some (pathText path) ∧
        walk v path v.root = some v.cwd := by
  obtain ⟨start, heap, v₀, r, hpmm, hheap, hinit, hr, hdir, hserves⟩ := vfsInit_oneRegion
  have hpos := free_ne_zero hpmm
  have hroot := Vfs.ne_zero_of_deref hr
  have hanchored := Anchored.init hheap hpos hinit hroot
  obtain hex | ⟨ptr, v₁, hmkdir, hadds, -⟩ := VfsCall.run_cases
    (c := .mkdir v₀.root ⟨chars "a", by decide⟩) hanchored.allocated hpos hr
  · exact absurd hserves (hex.not_serves _)
  have hcall : FsRun v₀ v₁ :=
    .call .start (.mkdir v₀.root ⟨chars "a", by decide⟩) ⟨r, hr, hdir⟩ hmkdir
  obtain ⟨v, text, hcd, -⟩ :=
    (hcall.anchored hpos hanchored).command (.cd (some ⟨chars "a", by decide⟩))
  exact ⟨start, heap, v₀, v, ptr, hpmm, hinit,
    ⟨v₁, text, hmkdir, Vfs.ne_zero_of_deref hadds.added, hcd⟩,
    cwd_named hpmm hheap hinit hroot (hcall.command _ hcd)⟩

section

variable {m : Memory} {kernelEnd multibootMagic multibootInfoAddr : U32} {turns : ℕ} {boot : Pmm}
  {v : Vfs}

/-- A boot creates the root exactly when `pmm_init` leaves a free page. -/
theorem kernelStart_outcome
    (hboot : kernelStart m kernelEnd turns multibootMagic multibootInfoAddr boot = some v) :
    ∃ start heap, pmmInit m kernelEnd turns (if multibootMagic ≠ multibootBootloaderMagic then 0#32
        else multibootInfoAddr) boot = some start ∧ Reachable start heap ∅ ∧
      vfsInit (.start heap) = some v ∧
      ((∀ q, ¬ start.Free q) ∧ v = .start heap ∨ (∃ q, start.Free q) ∧ v.root ≠ 0#32) := by
  obtain ⟨start, hpmm, hrest⟩ := Option.bind_eq_some_iff.mp hboot
  obtain ⟨heap, hheap, hinit⟩ := Option.bind_eq_some_iff.mp hrest
  have hpos := free_ne_zero hpmm
  obtain ⟨heap', l, hheap', hinv, -, hpages⟩ :=
    heapInv_init (s := ⟨m, start, 0#32, 0#32, 0#32⟩) hpos rfl
  obtain rfl := Option.some.inj (hheap'.symm.trans hheap)
  have hreach : Reachable start heap' ∅ := .init rfl hheap
  refine ⟨start, heap', hpmm, hreach, hinit, ?_⟩
  obtain ⟨hnone, rfl⟩ | ⟨first, got, rfl, hobtains⟩ := hpages
  · have hex : (Vfs.start heap').Exhausted :=
      hinv.kmalloc_null hpos (by decide) (by simp) fun q hq =>
        hnone q (hinv.accounts.freeBefore q hq)
    exact .inl ⟨hnone, (Option.some.inj ((vfsInit_exhausted hex).symm.trans hinit)).symm⟩
  · have hfirst : start.Free first :=
      hobtains.run.free first le_rfl (Nat.lt_add_of_pos_right hobtains.pos)
    have hserves : Serves vfsNodeSize 1 heap' := by
      have hsize := size_newBlock hobtains
      have hgot := hobtains.pos
      have halign : (alignUp vfsNodeSize alignment).toNat = 368 := by decide
      refine hinv.serves hpos (by decide) _ ⟨_, List.mem_singleton_self _, rfl, ?_⟩
      omega
    obtain ⟨v', hinit', -, -, -, -, ⟨hex, -⟩ | ⟨r, hr, -⟩, -⟩ := vfsInit_spec hreach hpos
    · exact absurd hserves (hex.not_serves _)
    · obtain rfl := Option.some.inj (hinit'.symm.trans hinit)
      exact .inr ⟨⟨first, hfirst⟩, Vfs.ne_zero_of_deref hr⟩

/-- The pages that the boot leaves free, from its arguments. -/
theorem exists_free_iff {start : Pmm} (hpmm : pmmInit m kernelEnd turns
      (if multibootMagic ≠ multibootBootloaderMagic then 0#32 else multibootInfoAddr) boot =
        some start) :
    (∃ q, start.Free q) ↔ multibootMagic = multibootBootloaderMagic ∧
      ∃ es, memoryMap m turns multibootInfoAddr = some es ∧
        ∃ page, kernelEnd.toNat / 4096 < page ∧ ∃ e ∈ es, e.Frees page := by
  by_cases hmagic : multibootMagic = multibootBootloaderMagic
  · rw [if_neg (not_not_intro hmagic)] at hpmm
    obtain ⟨es, hmap, -⟩ : ∃ es, memoryMap m turns multibootInfoAddr = some es ∧ _ := by
      rw [pmmInit_eq] at hpmm
      exact Option.map_eq_some_iff.mp hpmm
    simp only [pmmInit_frees hmap hpmm, hmagic, hmap, Option.some.injEq, true_and,
      exists_eq_left']
    constructor
    · rintro ⟨q, hq⟩
      exact ⟨q.toNat, hq⟩
    · rintro ⟨page, habove, e, he, husable, hlo, hhi⟩
      have hmax : e.wrappedLastPage ≤ 32768 := by
        unfold MapEntry.wrappedLastPage
        omega
      have hpage : (BitVec.ofNat 32 page).toNat = page := by
        rw [BitVec.toNat_ofNat]
        omega
      exact ⟨BitVec.ofNat 32 page, by rwa [hpage], e, he, by rw [hpage]; exact ⟨husable, hlo, hhi⟩⟩
  · rw [if_pos hmagic] at hpmm
    have hmap : memoryMap m turns 0#32 = some [] := by simp [memoryMap]
    simp [pmmInit_frees hmap hpmm, hmagic]

/-- The shell never follows a null pointer exactly when the boot had a free page: the multiboot
magic was right, and above the page of `_kernel_end` the memory map has a page that a usable entry
frees. -/
theorem neverNull_iff
    (hboot : kernelStart m kernelEnd turns multibootMagic multibootInfoAddr boot = some v) :
    NeverNull v ↔ multibootMagic = multibootBootloaderMagic ∧
      ∃ es, memoryMap m turns multibootInfoAddr = some es ∧
        ∃ page, kernelEnd.toNat / 4096 < page ∧ ∃ e ∈ es, e.Frees page := by
  obtain ⟨start, heap, hpmm, hheap, hinit, hroot⟩ := kernelStart_outcome hboot
  have hpos := free_ne_zero hpmm
  have hnull : NeverNull v ↔ ∃ q, start.Free q := by
    constructor
    · intro hnever
      obtain ⟨v', hrun, ⟨r, hr, -⟩, -⟩ := hnever []
      obtain rfl := Option.some.inj hrun
      refine hroot.elim (fun ⟨_, hv⟩ => ?_) fun ⟨hfree, _⟩ => hfree
      subst hv
      exact absurd rfl (Vfs.ne_zero_of_deref hr)
    · intro hfree
      have hne : v.root ≠ 0#32 := hroot.elim (fun ⟨hnone, _⟩ => absurd hfree (not_exists.mpr hnone))
        fun ⟨_, hne⟩ => hne
      exact (Anchored.init hheap hpos hinit hne).neverNull
  rw [hnull]
  exact exists_free_iff hpmm

end

/-- The boot with one region. -/
theorem oneRegion_neverNull : ∃ v,
    kernelStart oneRegion 0x180000#32 2 multibootBootloaderMagic 0x1000#32 ⟨fun _ => 0#8, 0#32⟩ =
      some v ∧ NeverNull v := by
  obtain ⟨start, s, first, got, hpmm, hheap, hinv, -⟩ := heapInit_oneRegion
  obtain ⟨v, hinit, -⟩ := vfsInit_spec (.init rfl hheap) (free_ne_zero hpmm)
  have hboot : kernelStart oneRegion 0x180000#32 2 multibootBootloaderMagic 0x1000#32
      ⟨fun _ => 0#8, 0#32⟩ = some v := by
    rw [kernelStart, if_neg (not_not_intro rfl), hpmm, Option.bind_some, hheap, Option.bind_some,
      hinit]
  refine ⟨v, hboot, (neverNull_iff hboot).mpr ⟨rfl, _, memoryMap_oneRegion, 400, by decide, _,
    List.mem_singleton_self _, by decide⟩⟩

/-- The same memory with a wrong multiboot magic: there is no root, and `ls` follows a null
pointer. -/
theorem wrongMagic_null : ∃ v,
    kernelStart oneRegion 0x180000#32 2 0#32 0x1000#32 ⟨fun _ => 0#8, 0#32⟩ = some v ∧
      v.root = 0#32 ∧ v.cwd = 0#32 ∧ runCommands [.ls none] v = none ∧ ¬ NeverNull v := by
  obtain ⟨start, hpmm⟩ : ∃ start, pmmInit oneRegion 0x180000#32 2 0#32 ⟨fun _ => 0#8, 0#32⟩ =
      some start := by
    rw [pmmInit_eq]
    exact ⟨_, rfl⟩
  have hpos := free_ne_zero hpmm
  obtain ⟨heap, l, hheap, -⟩ := heapInv_init (s := ⟨oneRegion, start, 0#32, 0#32, 0#32⟩) hpos rfl
  obtain ⟨v, hinit, -⟩ := vfsInit_spec (.init rfl hheap) hpos
  have hboot : kernelStart oneRegion 0x180000#32 2 0#32 0x1000#32 ⟨fun _ => 0#8, 0#32⟩ =
      some v := by
    rw [kernelStart, if_pos (by decide), hpmm, Option.bind_some, hheap, Option.bind_some, hinit]
  obtain ⟨start', heap', hpmm', -, -, ⟨-, rfl⟩ | ⟨hfree, -⟩⟩ := kernelStart_outcome hboot
  · refine ⟨_, hboot, rfl, rfl, rfl, fun hnever => ?_⟩
    obtain ⟨v', hrun, -⟩ := hnever [.ls none]
    cases hrun
  · exact absurd ((exists_free_iff hpmm').mp hfree).1 (by decide)

end AlderKernel.Shell
