import AlderKernel.Shell.Commands
import AlderKernel.Shell.Typing

/-!
# Sessions

Lines that are run one after the other after a boot. What they show is told by three things: the
current path, the tree in memory, which does not change, and the tree on the disk. The whole stack
is below: the interpreter, the commands, FAT16 and the partition table on the drive, and the heap
from which `catdisk` takes its buffer.
-/

namespace AlderKernel.Shell

open Machine Drivers Mm Fs

/-- The current path, and the tree on the disk. -/
structure Session where
  cwd : List Str
  tree : FileTree

/-- The text of calls. -/
def textOf (calls : List PrintCall) : List U8 := calls.flatMap PrintCall.printed

namespace Session

variable (ram : RamTree) (total : U32) (x : Session)

/-- The session after a command. -/
def after : ShellCommand → Session
  | .cd arg => { x with cwd := (ram.cd x.cwd (arg.map stringOf)).1 }
  | .mkfs => { x with tree := [] }
  | .install => { x with tree := installedTree }
  | _ => x

/-- What a command shows. Of the system information only the line of the first partition is told. -/
def Shows (text : List U8) : ShellCommand → Prop
  | .help => text = helpText
  | .about => text = aboutText
  | .echo args => text = args ++ chars "\n"
  | .uname option => text = textOf (commandUname option)
  | .ls arg => text = ram.lsText x.cwd (arg.map stringOf)
  | .cd arg => text = (ram.cd x.cwd (arg.map stringOf)).2
  | .pwd => text = pathText x.cwd ++ chars "\n"
  | .cat arg => text = ram.catText x.cwd (arg.map stringOf)
  | .partinfo => ∃ more, text = textOf (partitionCalls 0 (wholeDrive total)) ++ more
  | .mkpart => text = textOf (mkpartCalls total)
  | .mkfs => text = textOf (mkfsCalls total)
  | .install => text = textOf (installCalls total)
  | .lsdisk arg => text = x.tree.lsText arg
  | .catdisk arg => CatShows x.tree arg text
  | .unknown input => text = chars "Unknown command: " ++ input ++ chars "\n"
  | _ => True

end Session

/-- The session after a line. -/
def Session.afterLine (ram : RamTree) (x : Session) (line : List U8) : Session :=
  (callOf line).elim x (x.after ram)

/-- What a line shows. -/
def Session.LineShows (ram : RamTree) (total : U32) (x : Session) (text line : List U8) : Prop :=
  (callOf line).elim (text = []) (x.Shows ram total text)

/-- What `print_prompt` prints. -/
def promptText (cwdPath : List U8) : List U8 := chars "\nzSlash " ++ cwdPath ++ chars "> "

/-- What lines show one after the other, each with the prompt behind it. -/
inductive SessionShows (ram : RamTree) (total : U32) :
    Session → List (List U8) → List (List U8) → Prop
  | nil (x : Session) : SessionShows ram total x [] []
  | cons {x : Session} {line text : List U8} {lines texts : List (List U8)}
      (hline : x.LineShows ram total text line)
      (hrest : SessionShows ram total (x.afterLine ram line) lines texts) :
      SessionShows ram total x (line :: lines)
        ((text ++ promptText (pathText (x.afterLine ram line).cwd)) :: texts)

/-- What a line prints, and the kernel after it. -/
def runLine {σ : Type} (a : Drive σ) (line : List U8) (k : Kernel σ) :
    Option (List PrintCall × Kernel σ) :=
  (callOf line).elim (some ([], k)) (runCommand a k)

/-- A line with the prompt behind it. -/
def runPrompted {σ : Type} (a : Drive σ) (line : List U8) (k : Kernel σ) :
    Option (List U8 × Kernel σ) :=
  (runLine a line k).bind fun r =>
    (vfsPrintCwdPath r.2.vfs).map fun path => (textOf r.1 ++ promptText path, r.2)

/-- Lines one after the other. -/
def runLines {σ : Type} (a : Drive σ) :
    List (List U8) → Kernel σ → Option (List (List U8) × Kernel σ)
  | [], k => some ([], k)
  | line :: lines, k => (runPrompted a line k).bind fun r =>
    (runLines a lines r.2).map fun rest => (r.1 :: rest.1, rest.2)

/-- What clients had in the heap is there. -/
def KeepsClients (start : Pmm) (h : Heap) (live : Set U32) (bytes : ClientBytes) : Prop :=
  ∃ live' bytes', ClientRun start h live' bytes' ∧ live ⊆ live' ∧ ∀ q ∈ live, bytes' q = bytes q

/-- A kernel that was booted to the file system `v₀`, in a session. -/
structure Running (start : Pmm) (live : Set U32) (bytes : ClientBytes) (v₀ : Vfs) (total : U32)
    (k : Kernel Disk) (x : Session) : Prop where
  clients : KeepsClients start k.vfs.heap live bytes
  nodes : k.vfs.nodes = v₀.nodes
  root : k.vfs.root = v₀.root
  cwd : Path k.vfs k.vfs.cwd x.cwd
  holds : HoldsTree total k.fat.dev x.tree

section

variable {start : Pmm} {live : Set U32} {bytes : ClientBytes} {v v' v₀ : Vfs} {total : U32}
  {k : Kernel Disk} {x : Session} {h h' : Heap} {p : U32} {path : List Str}

/-! ### The heap -/

/-- Clients of whom nothing changes keep what they had. -/
theorem SameClients.keeps {live' : Set U32} {bytes' : ClientBytes}
    (hsame : SameClients start h' live' bytes') (hlive : live ⊆ live')
    (hbytes : ∀ q ∈ live, bytes' q = bytes q) : KeepsClients start h' live bytes := by
  obtain ⟨bytes'', hrun, hkept⟩ := hsame
  exact ⟨live', bytes'', hrun, hlive, fun q hq => (hkept q (hlive hq)).trans (hbytes q hq)⟩

/-- `req-syscallop` returns for a number other than 16 and 17, and keeps what clients have. -/
theorem reqSyscallop_keeps (hpos : ∀ q, start.Free q → q ≠ 0#32)
    (hkeeps : KeepsClients start h live bytes) {arg : Option (List U8)}
    (hplain : (ShellCommand.reqSyscallop arg).Plain) :
    ∃ h', (commandReqSyscallop arg h).heap = some h' ∧ KeepsClients start h' live bytes := by
  cases arg with
  | none => exact ⟨h, rfl, hkeeps⟩
  | some arg =>
    obtain ⟨hpanic, hdivzero⟩ := hplain
    change ∃ h', (syscallDispatch (strToUint arg) h).heap = some h' ∧ _
    unfold syscallDispatch
    rw [if_neg hpanic, if_neg hdivzero]
    split_ifs with hread hwrite hram hreserved
    · exact ⟨h, rfl, hkeeps⟩
    · exact ⟨h, rfl, hkeeps⟩
    · obtain ⟨live', bytes', hrun, hlive, hbytes⟩ := hkeeps
      obtain ⟨l, hinv, -⟩ := hrun.holdsBytes hpos
      have hsize : syscallTestAllocSize ≠ 0#32 := by decide
      obtain ⟨⟨ptr, h₁⟩, l', hmalloc, hsteps⟩ := hinv.kmalloc_steps hpos hsize
      have htaken := hrun.kmalloc syscallTestAllocSize hmalloc
      unfold sysRequestRam
      rw [hmalloc]
      dsimp only
      by_cases hnull : ptr = 0#32
      · rw [if_pos hnull] at htaken ⊢
        rw [if_pos hnull] at htaken
        exact ⟨h₁, rfl, live', bytes', htaken, hlive, hbytes⟩
      · rw [if_neg hnull] at htaken ⊢
        rw [if_neg hnull] at htaken
        have hfresh := (hinv.fresh hpos hsteps).resolve_left hnull
        refine ⟨h₁, rfl, insert ptr live', _, htaken,
          hlive.trans (Set.subset_insert ptr live'), fun q hq => ?_⟩
        have hne : q ≠ ptr := fun heq => hfresh (heq ▸ hlive hq)
        rw [Function.update_of_ne hne, hbytes q hq]
    · exact ⟨h, rfl, hkeeps⟩
    · exact ⟨h, rfl, hkeeps⟩

/-! ### The file system in memory -/

/-- Pointers are decided by the nodes. -/
theorem deref_congr (hnodes : v'.nodes = v.nodes) (p : U32) : v'.deref p = v.deref p := by
  unfold Vfs.deref
  rw [hnodes]

/-- Paths and the tree in memory are decided by the nodes and the root. -/
theorem walk_congr (hnodes : v'.nodes = v.nodes) (path : List Str) (p : U32) :
    walk v' path p = walk v path p := by
  have hfrom (name : Str) (l : List U32) : findChildFrom v' name l = findChildFrom v name l := by
    induction l with
    | nil => rfl
    | cons c l ih => simp only [findChildFrom, deref_congr hnodes, ih]
  have hfind (name : Str) (p : U32) : vfsFindChild v' p name = vfsFindChild v p name := by
    simp only [vfsFindChild, deref_congr hnodes, hfrom]
  induction path generalizing p with
  | nil => rfl
  | cons name path ih =>
    simp only [walk, hfind]
    exact congrArg _ (funext ih)

/-- The tree in memory is decided by the nodes and the root. -/
theorem ramOf_congr (hnodes : v'.nodes = v.nodes) (hroot : v'.root = v.root) :
    ramOf v' = ramOf v := by
  have hentry (n : VfsNode) : entryOf v' n = entryOf v n := by
    simp only [entryOf, namesOf, deref_congr hnodes]
  funext path
  simp only [ramOf, walk_congr hnodes, hroot, deref_congr hnodes, funext hentry]

/-- The same nodes and root are an extension. -/
theorem extends_congr (hnodes : v'.nodes = v.nodes) (hroot : v'.root = v.root) : Extends v v' where
  root := hroot
  node q n hn := ⟨n, (deref_congr hnodes q).trans hn, rfl, rfl, rfl, List.prefix_rfl⟩

/-- Whether the nodes are a tree is decided by the nodes and the root. -/
theorem tree_congr (htree : v.Tree) (hnodes : v'.nodes = v.nodes) (hroot : v'.root = v.root) :
    v'.Tree := by
  obtain ⟨hr, hparent, hchildren⟩ := htree
  unfold Vfs.IsDir at hparent
  refine ⟨?_, ?_, ?_⟩
  · simpa only [hroot, deref_congr hnodes] using hr
  · unfold Vfs.IsDir
    simpa only [hroot, deref_congr hnodes] using hparent
  · simpa only [deref_congr hnodes] using hchildren

/-! ### The parts of a running kernel -/

/-- Another volume with another tree on the disk. -/
theorem Running.setFat {fat : Fat16 Disk} {tree : FileTree}
    (h : Running start live bytes v₀ total k x) (hdisk : HoldsTree total fat.dev tree) :
    Running start live bytes v₀ total { k with fat := fat } { x with tree := tree } :=
  ⟨h.clients, h.nodes, h.root, h.cwd, hdisk⟩

/-- Another heap in which the clients keep what they had. -/
theorem Running.setHeap (h : Running start live bytes v₀ total k x)
    (hkeeps : KeepsClients start h' live bytes) :
    Running start live bytes v₀ total { k with vfs := { k.vfs with heap := h' } } x :=
  ⟨hkeeps, h.nodes, h.root, h.cwd.extends (extends_congr rfl rfl), h.holds⟩

/-- Another current directory with its path. -/
theorem Running.setCwd (h : Running start live bytes v₀ total k x) (hpath : Path k.vfs p path) :
    Running start live bytes v₀ total { k with vfs := { k.vfs with cwd := p } }
      { x with cwd := path } :=
  ⟨h.clients, h.nodes, h.root, hpath.extends (extends_congr rfl rfl), h.holds⟩

/-- A command of `fs_commands.c`. -/
theorem Running.fsCommand (h : Running start live bytes v₀ total k x) (htree : v₀.Tree)
    (hroot : v₀.IsDir v₀.root) (arg : Option Str) :
    commandLs arg k.vfs = some ((ramOf v₀).lsText x.cwd arg) ∧
      commandCat arg k.vfs = some ((ramOf v₀).catText x.cwd arg) ∧
      vfsPrintCwdPath k.vfs = some (pathText x.cwd) ∧
      ∃ q, commandCd arg k.vfs =
        some ({ k.vfs with cwd := q }, ((ramOf v₀).cd x.cwd arg).2) ∧
          Path k.vfs q ((ramOf v₀).cd x.cwd arg).1 := by
  have htree' := tree_congr htree h.nodes h.root
  have hroot' : k.vfs.IsDir k.vfs.root := by
    obtain ⟨r, hr, hdir⟩ := hroot
    exact ⟨r, by rw [h.root, deref_congr h.nodes, hr], hdir⟩
  rw [← ramOf_congr h.nodes h.root]
  exact ⟨commandLs_ram htree' hroot' h.cwd arg, commandCat_ram htree' h.cwd arg,
    h.cwd.printCwd htree', commandCd_ram htree' hroot' h.cwd arg⟩

/-- A command that lists or prints files of the disk. -/
theorem Running.diskCommand (h : Running start live bytes v₀ total k x)
    (hpos : ∀ q, start.Free q → q ≠ 0#32) (arg : Option (List U8)) :
    (textOf (commandLsdisk disk arg k.fat).1 = x.tree.lsText arg ∧
        (commandLsdisk disk arg k.fat).2.dev = k.fat.dev) ∧
      ∃ calls h' s', commandCatdiskWhole disk arg k.vfs.heap k.fat = some (calls, h', s') ∧
        s'.dev = k.fat.dev ∧ KeepsClients start h' live bytes ∧
        CatShows x.tree arg (textOf calls) := by
  obtain ⟨next, l, hstores, hnext, htree⟩ := h.holds.stored
  have hmount := h.holds.mounted
  obtain ⟨live', bytes', hrun, hlive, hbytes⟩ := h.clients
  have hls := lsdisk_tree hmount hstores ⟨rfl, rfl⟩ hnext rfl arg
  obtain ⟨calls, h', s', hcat, hdev, hclients, hshows⟩ :=
    catdisk_tree hpos hrun hmount hstores ⟨rfl, rfl⟩ hnext rfl arg
  rw [htree] at hls hshows
  exact ⟨hls, calls, h', s', hcat, hdev, hclients.keeps hlive hbytes, hshows⟩

/-- What `diskinfo` and `partinfo` do to the volume, and what `partinfo` shows first. -/
theorem Running.infoCommand (h : Running start live bytes v₀ total k x) :
    (commandDiskinfo (drive total) k.fat).2.dev = k.fat.dev ∧
      (commandPartinfo disk k.fat).2.dev = k.fat.dev ∧
      ∃ more, textOf (commandPartinfo disk k.fat).1 =
        textOf (partitionCalls 0 (wholeDrive total)) ++ more := by
  obtain ⟨hused, -⟩ := firstSlot (congrArg MbrPartition.type h.holds.slot)
  refine ⟨rfl, ?_, ?_⟩
  · unfold commandPartinfo
    rw [mbrReadPartitions_disk]
    dsimp only
    rw [if_neg hused]
  · unfold commandPartinfo
    rw [mbrReadPartitions_disk]
    dsimp only
    rw [if_neg hused, List.finRange_succ, List.flatMap_cons, h.holds.slot]
    exact ⟨_, List.flatMap_append ..⟩

/-- Each command returns, keeps the session's invariant, and shows what the session says. -/
theorem Running.command (h : Running start live bytes v₀ total k x)
    (hpos : ∀ q, start.Free q → q ≠ 0#32) (htree : v₀.Tree) (hroot : v₀.IsDir v₀.root)
    (hlarge : 2048#32 < total) (hsize : Admitted (total - 2048#32)) {call : ShellCommand}
    (hplain : call.Plain) : ∃ calls k', runCommand (drive total) k call = some (calls, k') ∧
      Running start live bytes v₀ total k' (x.after (ramOf v₀) call) ∧
      x.Shows (ramOf v₀) total (textOf calls) call := by
  have hata : (drive total).toAta = disk := rfl
  cases call with
  | clear => exact hplain.elim
  | halt => exact hplain.elim
  | memtest => exact hplain.elim
  | loop => exact hplain.elim
  | runelf => exact hplain.elim
  | help => exact ⟨_, k, rfl, h, by simp [Session.Shows, textOf, PrintCall.printed]⟩
  | about => exact ⟨_, k, rfl, h, by simp [Session.Shows, textOf, PrintCall.printed]⟩
  | echo args => exact ⟨_, k, rfl, h, by simp [Session.Shows, textOf, PrintCall.printed]⟩
  | uname option => exact ⟨_, k, rfl, h, rfl⟩
  | meminfo => exact ⟨_, k, rfl, h, trivial⟩
  | unknown input => exact ⟨_, k, rfl, h, by simp [Session.Shows, textOf, PrintCall.printed]⟩
  | reqSyscallop arg =>
    obtain ⟨h', hreturns, hkeeps⟩ := reqSyscallop_keeps hpos h.clients hplain
    exact ⟨_, _, by rw [runCommand, hreturns]; rfl, h.setHeap hkeeps, trivial⟩
  | ls arg =>
    obtain ⟨hls, -⟩ := h.fsCommand htree hroot (arg.map stringOf)
    refine ⟨_, k, by rw [runCommand, runFs, FsCommand.run, hls]; rfl, h, ?_⟩
    simp [Session.Shows, textOf, PrintCall.printed]
  | cd arg =>
    obtain ⟨-, -, -, q, hcd, hpath⟩ := h.fsCommand htree hroot (arg.map stringOf)
    refine ⟨_, _, by rw [runCommand, runFs, FsCommand.run, hcd]; rfl, h.setCwd hpath, ?_⟩
    simp [Session.Shows, textOf, PrintCall.printed]
  | pwd =>
    obtain ⟨-, -, hpwd, -⟩ := h.fsCommand htree hroot none
    refine ⟨_, k, by rw [runCommand, runFs, FsCommand.run, commandPwd, hpwd]; rfl, h, ?_⟩
    simp [Session.Shows, textOf, PrintCall.printed]
  | cat arg =>
    obtain ⟨-, hcat, -⟩ := h.fsCommand htree hroot (arg.map stringOf)
    refine ⟨_, k, by rw [runCommand, runFs, FsCommand.run, hcat]; rfl, h, ?_⟩
    simp [Session.Shows, textOf, PrintCall.printed]
  | diskinfo =>
    obtain ⟨hdev, -⟩ := h.infoCommand
    exact ⟨_, _, rfl, h.setFat (hdev ▸ h.holds), trivial⟩
  | partinfo =>
    obtain ⟨-, hdev, hshows⟩ := h.infoCommand
    exact ⟨_, _, rfl, h.setFat (hdev ▸ h.holds), hshows⟩
  | mkpart =>
    obtain ⟨d', hmkpart, hslot, hkept⟩ := mkpart_drive hlarge k.fat
    exact ⟨_, _, by rw [runCommand, runFat, hmkpart], h.setFat (h.holds.mkpart hslot hkept), rfl⟩
  | mkfs =>
    have hmkfs := mkfs_drive hsize h.holds.slot
    exact ⟨_, _, by rw [runCommand, runFat, hata, hmkfs],
      h.setFat (holdsTree_formatted h.holds.slot), rfl⟩
  | install =>
    obtain ⟨s', hinstall, htree'⟩ := install_drive hlarge hsize k.fat
    exact ⟨_, _, by rw [runCommand, hinstall]; rfl, h.setFat htree', rfl⟩
  | lsdisk arg =>
    obtain ⟨⟨hls, hdev⟩, -⟩ := h.diskCommand hpos arg
    exact ⟨_, _, rfl, h.setFat (hdev ▸ h.holds), hls⟩
  | catdisk arg =>
    obtain ⟨-, calls, h', s', hcat, hdev, hkeeps, hshows⟩ := h.diskCommand hpos arg
    exact ⟨calls, _, by rw [runCommand, hata, hcat]; rfl,
      (h.setHeap hkeeps).setFat (hdev ▸ h.holds), hshows⟩

/-! ### After the boot -/

/-- The nodes are in blocks of the heap. -/
def NodesOwned (start : Pmm) (v : Vfs) : Prop :=
  ∃ live bytes, ClientRun start v.heap live bytes ∧ ∀ p n, v.deref p = some n → p ∈ live

/-- Setting a node that is there. -/
theorem owned_setNode (hown : NodesOwned start v) {q : U32} {m n : VfsNode}
    (hq : v.deref q = some m) :
    NodesOwned start (v.setNode q n) := by
  obtain ⟨live, bytes, hrun, hnodes⟩ := hown
  refine ⟨live, bytes, hrun, fun p n' hp => ?_⟩
  by_cases hpq : p = q
  · exact hpq ▸ hnodes q m hq
  · rw [Vfs.deref_setNode_of_ne hpq] at hp
    exact hnodes p n' hp

/-- A node is allocated. -/
theorem owned_allocNode (hown : NodesOwned start v) {name : Str} {type : VfsType} {parent ptr : U32}
    (hrun : vfsAllocNode name type parent v = some (ptr, v')) : NodesOwned start v' := by
  obtain ⟨live, bytes, hclient, hnodes⟩ := hown
  obtain ⟨⟨q, heap⟩, hmalloc, hrest⟩ := Option.bind_eq_some_iff.mp hrun
  have htaken := hclient.kmalloc vfsNodeSize hmalloc
  dsimp only at hrest
  by_cases hnull : q = 0#32
  · rw [if_pos hnull] at hrest
    rw [if_pos hnull, if_pos hnull] at htaken
    obtain ⟨-, rfl⟩ := Prod.mk.inj (Option.some.inj hrest)
    exact ⟨live, bytes, htaken, hnodes⟩
  rw [if_neg hnull] at hrest
  rw [if_neg hnull, if_neg hnull] at htaken
  have hnew :
      NodesOwned start (({ v with heap := heap } : Vfs).setNode q (newNode name type parent)) := by
    refine ⟨_, _, htaken, fun p n hp => ?_⟩
    by_cases hpq : p = q
    · exact .inl hpq
    · rw [Vfs.deref_setNode_of_ne hpq] at hp
      exact .inr (hnodes p n hp)
  by_cases hparent : parent = 0#32
  · rw [if_pos hparent] at hrest
    obtain ⟨-, rfl⟩ := Prod.mk.inj (Option.some.inj hrest)
    exact hnew
  · rw [if_neg hparent] at hrest
    obtain ⟨m, hm, hpair⟩ := Option.map_eq_some_iff.mp hrest
    obtain ⟨-, rfl⟩ := Prod.mk.inj hpair
    exact owned_setNode hnew hm

/-- A file is created. -/
theorem owned_createFile (hown : NodesOwned start v) {name : Str} {content : Str} {parent : U32}
    {r : U32 × Vfs} (hrun : vfsCreateFile parent name (some content) v = some r) :
    NodesOwned start r.2 := by
  obtain ⟨s, halloc, hrest⟩ := Option.bind_eq_some_iff.mp hrun
  have hown' := owned_allocNode hown halloc
  dsimp only at hrest
  split_ifs at hrest
  · obtain rfl := Option.some.inj hrest
    exact hown'
  · obtain ⟨m, hm, rfl⟩ := Option.map_eq_some_iff.mp hrest
    exact owned_setNode hown' hm

/-- After the boot the nodes are in blocks of the heap. -/
theorem owned_booted {m : Memory} {kernelEnd multibootMagic multibootInfoAddr : U32} {turns : ℕ}
    {boot : Pmm}
    (hboot : kernelStart m kernelEnd turns multibootMagic multibootInfoAddr boot = some v)
    (hpmm : pmmInit m kernelEnd turns (if multibootMagic ≠ multibootBootloaderMagic then 0#32
      else multibootInfoAddr) boot = some start) : NodesOwned start v := by
  obtain ⟨start', hpmm', hrest⟩ := Option.bind_eq_some_iff.mp hboot
  obtain rfl := Option.some.inj (hpmm.symm.trans hpmm')
  obtain ⟨heap, hheap, hinit⟩ := Option.bind_eq_some_iff.mp hrest
  have hown : NodesOwned start (.start heap) :=
    ⟨∅, _, .init rfl hheap, fun p n hp => absurd hp (by simp [Vfs.deref, Vfs.start])⟩
  obtain ⟨r₁, hroot, hinit⟩ := Option.bind_eq_some_iff.mp hinit
  obtain ⟨r₂, hkernel, hinit⟩ := Option.bind_eq_some_iff.mp hinit
  obtain ⟨r₃, hshell, hinit⟩ := Option.bind_eq_some_iff.mp hinit
  obtain ⟨r₄, hreadme, hinit⟩ := Option.bind_eq_some_iff.mp hinit
  obtain ⟨r₅, hreadme', rfl⟩ := Option.map_eq_some_iff.mp hinit
  have hown₁ : NodesOwned start r₁.2 := owned_allocNode hown hroot
  have hown₁' : NodesOwned start { r₁.2 with root := r₁.1 } := hown₁
  exact owned_createFile (owned_createFile (owned_allocNode (owned_allocNode hown₁' hkernel) hshell)
    hreadme) hreadme'

/-- After the boot the session is in the root directory. -/
theorem running_booted {m : Memory} {kernelEnd multibootMagic multibootInfoAddr : U32} {turns : ℕ}
    {boot : Pmm} {tree : FileTree} {s : Fat16 Disk}
    (hboot : kernelStart m kernelEnd turns multibootMagic multibootInfoAddr boot = some v)
    (hroot : v.root ≠ 0#32) (hholds : HoldsTree total s.dev tree) :
    ∃ start live bytes, pmmInit m kernelEnd turns (if multibootMagic ≠ multibootBootloaderMagic then
        0#32 else multibootInfoAddr) boot = some start ∧ v.Tree ∧ v.IsDir v.root ∧
      (∀ p n, v.deref p = some n → p ∈ live) ∧
      Running start live bytes v total ⟨v, s⟩ ⟨[], tree⟩ := by
  obtain ⟨start, heap, hpmm, hreach, hinit, -⟩ := kernelStart_outcome hboot
  have hpos := free_ne_zero hpmm
  obtain ⟨v', hinit', -, htree, -, hcwd, hdir, -⟩ := vfsInit_spec hreach hpos
  obtain rfl := Option.some.inj (hinit'.symm.trans hinit)
  have hdir' : v'.IsDir v'.root := hdir.resolve_left fun ⟨_, hv⟩ => hroot (by rw [hv]; rfl)
  obtain ⟨live, bytes, hrun, hnodes⟩ := owned_booted hboot hpmm
  refine ⟨start, live, bytes, hpmm, htree, hdir', hnodes, ?_⟩
  refine ⟨⟨live, bytes, hrun, subset_rfl, fun _ _ => rfl⟩, rfl, rfl, ?_, hholds⟩
  rw [hcwd]
  exact .root hdir'

/-! ### Lines -/

/-- A line, with the prompt behind it. -/
theorem Running.line (h : Running start live bytes v₀ total k x)
    (hpos : ∀ q, start.Free q → q ≠ 0#32) (htree : v₀.Tree) (hroot : v₀.IsDir v₀.root)
    (hlarge : 2048#32 < total) (hsize : Admitted (total - 2048#32)) {line : List U8}
    (hplain : ∀ call, callOf line = some call → call.Plain) :
    ∃ text k', runPrompted (drive total) line k =
        some (text ++ promptText (pathText (x.afterLine (ramOf v₀) line).cwd), k') ∧
      Running start live bytes v₀ total k' (x.afterLine (ramOf v₀) line) ∧
      x.LineShows (ramOf v₀) total text line := by
  have hline : ∃ calls k', runLine (drive total) line k = some (calls, k') ∧
      Running start live bytes v₀ total k' (x.afterLine (ramOf v₀) line) ∧
      x.LineShows (ramOf v₀) total (textOf calls) line := by
    unfold runLine Session.afterLine Session.LineShows
    cases hcall : callOf line with
    | none => exact ⟨[], k, rfl, h, rfl⟩
    | some call => exact h.command hpos htree hroot hlarge hsize (hplain call hcall)
  obtain ⟨calls, k', hrun, hrunning, hshows⟩ := hline
  obtain ⟨-, -, hprompt, -⟩ := hrunning.fsCommand htree hroot none
  refine ⟨textOf calls, k', ?_, hrunning, hshows⟩
  rw [runPrompted, hrun, Option.bind_some, hprompt, Option.map_some]

/-- Lines one after the other show what the session says. -/
theorem Running.lines (h : Running start live bytes v₀ total k x)
    (hpos : ∀ q, start.Free q → q ≠ 0#32) (htree : v₀.Tree) (hroot : v₀.IsDir v₀.root)
    (hlarge : 2048#32 < total) (hsize : Admitted (total - 2048#32)) {lines : List (List U8)}
    (hplain : ∀ line ∈ lines, ∀ call, callOf line = some call → call.Plain) :
    ∃ texts k' y, runLines (drive total) lines k = some (texts, k') ∧
      Running start live bytes v₀ total k' y ∧ SessionShows (ramOf v₀) total x lines texts := by
  induction lines generalizing k x with
  | nil => exact ⟨[], k, x, rfl, h, .nil x⟩
  | cons line lines ih =>
    obtain ⟨text, k₁, hrun, hrunning, hshows⟩ :=
      h.line hpos htree hroot hlarge hsize (hplain line List.mem_cons_self)
    obtain ⟨texts, k₂, y, hrest, hrunning', hsession⟩ :=
      ih hrunning fun line hline => hplain line (List.mem_cons_of_mem _ hline)
    refine ⟨_, k₂, y, ?_, hrunning', .cons hshows hsession⟩
    rw [runLines, hrun, Option.bind_some, hrest, Option.map_some]

/-- The nodes stay in blocks of the heap. -/
theorem Running.owned (h : Running start live bytes v₀ total k x)
    (hnodes : ∀ p n, v₀.deref p = some n → p ∈ live) : NodesOwned start k.vfs := by
  obtain ⟨live', bytes', hrun, hlive, -⟩ := h.clients
  refine ⟨live', bytes', hrun, fun p n hp => hlive (hnodes p n ?_)⟩
  rwa [deref_congr h.nodes] at hp

/-- A drive is installed, and then lines are run. Whatever the drive held and whatever was mounted,
if its size is accepted and its transfers succeed: after a boot that found memory, `install` and any
lines behind it return, as long as these are plain commands. What they show is what the session says
for the tree of `install`; the file system in memory is as it was, with its nodes in blocks of the
heap. -/
theorem install_session {m : Memory} {kernelEnd multibootMagic multibootInfoAddr : U32}
    {turns : ℕ} {boot : Pmm}
    (hboot : kernelStart m kernelEnd turns multibootMagic multibootInfoAddr boot = some v)
    (hroot : v.root ≠ 0#32) (total : U32) (hlarge : 2048#32 < total)
    (hsize : Admitted (total - 2048#32)) (s : Fat16 Disk) (lines : List (List U8))
    (hplain : ∀ line ∈ lines, ∀ call, callOf line = some call → call.Plain) :
    ∃ texts k', runLines (drive total) (chars "install" :: lines) ⟨v, s⟩ =
        some ((textOf (installCalls total) ++ promptText (chars "/")) :: texts, k') ∧
      SessionShows (ramOf v) total ⟨[], installedTree⟩ lines texts ∧
      k'.vfs.nodes = v.nodes ∧ ∃ start, pmmInit m kernelEnd turns (if multibootMagic ≠
        multibootBootloaderMagic then 0#32 else multibootInfoAddr) boot = some start ∧
          NodesOwned start k'.vfs := by
  obtain ⟨s', hinstall, hholds⟩ := install_drive hlarge hsize s
  obtain ⟨start, live, bytes, hpmm, htree, hdir, hnodes, hrunning⟩ :=
    running_booted hboot hroot hholds
  have hpos := free_ne_zero hpmm
  obtain ⟨-, -, hprompt, -⟩ := hrunning.fsCommand htree hdir none
  obtain ⟨texts, k', y, hrun, hrunning', hsession⟩ :=
    hrunning.lines hpos htree hdir hlarge hsize hplain
  have hcall : callOf (chars "install") = some .install := by decide
  have hfirst : runLine (drive total) (chars "install") ⟨v, s⟩ =
      some (installCalls total, ⟨v, s'⟩) := by
    unfold runLine
    rw [hcall]
    change runCommand (drive total) ⟨v, s⟩ .install = _
    rw [runCommand, hinstall]
    rfl
  refine ⟨texts, k', ?_, hsession, hrunning'.nodes, start, hpmm, hrunning'.owned hnodes⟩
  rw [runLines, runPrompted, hfirst, Option.bind_some]
  dsimp only at hprompt ⊢
  rw [hprompt, Option.map_some, Option.bind_some, hrun, Option.map_some]
  rfl

end

/-- The boot with one region finds memory. -/
theorem kernelStart_oneRegion : ∃ v,
    kernelStart oneRegion 0x180000#32 2 multibootBootloaderMagic 0x1000#32 ⟨fun _ => 0#8, 0#32⟩ =
      some v ∧ v.root ≠ 0#32 := by
  obtain ⟨start, s, first, got, hpmm, hheap, -, -, hpages⟩ := heapInit_oneRegion
  obtain ⟨v, hinit, -⟩ := vfsInit_spec (.init rfl hheap) (free_ne_zero hpmm)
  have hboot : kernelStart oneRegion 0x180000#32 2 multibootBootloaderMagic 0x1000#32
      ⟨fun _ => 0#8, 0#32⟩ = some v := by
    rw [kernelStart, if_neg (not_not_intro rfl), hpmm, Option.bind_some, hheap, Option.bind_some,
      hinit]
  refine ⟨v, hboot, ?_⟩
  obtain ⟨start', heap, hpmm', -, -, ⟨hnone, -⟩ | ⟨-, hroot⟩⟩ := kernelStart_outcome hboot
  · obtain rfl := Option.some.inj (hpmm.symm.trans hpmm')
    exact absurd (hpages.run.free first le_rfl (Nat.lt_add_of_pos_right hpages.pos)) (hnone first)
  · exact hroot

/-- An empty drive is installed, and the file of `/system` is listed and printed. -/
theorem install_session_readme : ∃ v texts k', kernelStart oneRegion 0x180000#32 2
      multibootBootloaderMagic 0x1000#32 ⟨fun _ => 0#8, 0#32⟩ = some v ∧
    runLines (drive 300000#32) [chars "install", chars "lsdisk system",
      chars "catdisk system/readme.txt"]
      ⟨v, ⟨formattedVolume 0#32, false, fun _ => .zero, false⟩⟩ = some (texts, k') ∧
    SessionShows (ramOf v) 300000#32 ⟨[], installedTree⟩
      [chars "lsdisk system", chars "catdisk system/readme.txt"] texts.tail := by
  obtain ⟨v, hboot, hroot⟩ := kernelStart_oneRegion
  have hls : callOf (chars "lsdisk system") = some (.lsdisk (some (chars "system"))) := by decide
  have hcat : callOf (chars "catdisk system/readme.txt") =
      some (.catdisk (some (chars "system/readme.txt"))) := by decide
  obtain ⟨texts, k', hrun, hsession, -⟩ := install_session hboot hroot 300000#32 (by decide)
    (by simp [Admitted]) ⟨formattedVolume 0#32, false, fun _ => .zero, false⟩
    [chars "lsdisk system", chars "catdisk system/readme.txt"] (by
      intro line hline call hcall
      rcases List.mem_pair.mp hline with rfl | rfl
      · obtain rfl := Option.some.inj (hls.symm.trans hcall)
        trivial
      · obtain rfl := Option.some.inj (hcat.symm.trans hcall)
        trivial)
  exact ⟨v, _, k', hboot, hrun, hsession⟩

end AlderKernel.Shell
