import AlderKernel.Fs.VfsTree
import AlderKernel.Mm.Coalescing

/-!
# The file system over whole runs

From `vfs_init` on, in any sequence of calls on existing directories, the nodes form a tree. The
parent pointers and the child lists agree as long as no node is created in a directory that already
has sixteen children.
-/

namespace AlderKernel.Fs

open Machine Drivers Mm

/-- A call in a run: the node that it returned, and the number of children of its directory before
it. -/
structure VfsReturn where
  call : VfsCall
  node : U32
  childCount : ℕ

/-- The file systems that any calls on existing directories lead to, with the calls. Before
`vfs_init` the heap may have been used. -/
inductive VfsRun (start : Pmm) : Vfs → List VfsReturn → Prop
  | init {heap : Heap} {live : Set U32} {v : Vfs} (hheap : Reachable start heap live)
      (hinit : vfsInit (.start heap) = some v) : VfsRun start v []
  | call {v v' : Vfs} {log : List VfsReturn} {p : VfsNode} {ptr : U32} (h : VfsRun start v log)
      (c : VfsCall) (hparent : v.deref c.parent = some p) (hdir : p.type = .dir)
      (hrun : c.run v = some (ptr, v')) :
      VfsRun start v' (log ++ [⟨c, ptr, p.children.length⟩])

/-- The file system after some of the calls of `vfs_init`: its nodes agree, and none has more than
`k` children. -/
structure Vfs.Booting (start : Pmm) (k : ℕ) (v : Vfs) : Prop where
  allocated : v.Allocated start
  tree : v.Tree
  agrees : v.Agrees
  small : ∀ p n, v.deref p = some n → n.children.length ≤ k

/-- There is no memory left, or the pointer is one of a directory. -/
def Vfs.Ready (v : Vfs) (p : U32) : Prop := v.Exhausted ∨ v.IsDir p

section

variable {start : Pmm} {v v' : Vfs} {k : ℕ} {c : VfsCall} {ptr p : U32} {n node : VfsNode}
  {log : List VfsReturn} {heap : Heap} {live : Set U32}

/-- In a directory with room a call keeps the agreement. -/
theorem Vfs.Adds.agrees (h : v.Adds node ptr v') (htree : v.Tree) (hagrees : v.Agrees)
    (hdir : v.IsDir node.parent) (hchildren : node.children = [])
    (hp : v.deref node.parent = some n) (hroom : n.children.length < vfsMaxChildren) :
    v'.Agrees := by
  refine ⟨fun q m hq hne => ?_, (h.tree htree hdir hchildren).children⟩
  rw [h.listings hp hchildren]
  obtain ⟨rfl, rfl⟩ | ⟨m', hm', rfl⟩ := h.cases hq
  · simp [h.listings_new htree, hroom]
  · rw [h.root] at hne
    have hold : q ≠ ptr := by
      rintro rfl
      simp [h.fresh] at hm'
    rw [VfsNode.ite_addChild_parent, hagrees.listed q m' hm' hne]
    simp [hold]

/-- One of the calls of `vfs_init`. -/
theorem Vfs.Booting.call (h : v.Booting start k) (hpos : ∀ q, start.Free q → q ≠ 0#32)
    (hk : k < vfsMaxChildren) (hready : v.Ready c.parent) :
    ∃ ptr v', c.run v = some (ptr, v') ∧ v'.Booting start (k + 1) ∧ v'.root = v.root ∧
      (∀ q, v.Ready q → v'.Ready q) ∧ (v'.Exhausted ∨ v'.deref ptr = some c.node) := by
  by_cases hex : v.Exhausted
  · have hsmall : ∀ p n, v.deref p = some n → n.children.length ≤ k + 1 :=
      fun p n hp => (h.small p n hp).trans (Nat.le_succ k)
    exact ⟨0#32, v, hex.run c, ⟨h.allocated, h.tree, h.agrees, hsmall⟩, rfl, fun _ => id, .inl hex⟩
  · have hdir : v.IsDir c.parent := hready.resolve_left hex
    have hdir' : v.IsDir c.node.parent := by rwa [c.node_parent]
    obtain ⟨p, hp, -⟩ := hdir
    obtain ⟨ptr, v', hrun, hadds, hallocated⟩ :=
      (VfsCall.run_cases h.allocated hpos hp).resolve_left hex
    have hp' : v.deref c.node.parent = some p := by rwa [c.node_parent]
    have hroom : p.children.length < vfsMaxChildren := (h.small _ p hp).trans_lt hk
    refine ⟨ptr, v', hrun, ⟨hallocated, hadds.tree h.tree hdir' c.node_children,
      hadds.agrees h.tree h.agrees hdir' c.node_children hp' hroom, fun q m hq => ?_⟩, hadds.root,
      fun q hq => .inr (hadds.isDir (hq.resolve_left hex)), .inr hadds.added⟩
    obtain ⟨-, rfl⟩ | ⟨m', hm', rfl⟩ := hadds.cases hq
    · simp [c.node_children]
    · have hle := h.small q m' hm'
      split_ifs
      · by_cases hroom' : m'.children.length < vfsMaxChildren
        · simpa [VfsNode.addChild_of_lt hroom'] using hle
        · rw [VfsNode.addChild_of_le (Nat.not_lt.mp hroom')]
          omega
      · omega

/-- The first allocation of `vfs_init`. -/
theorem vfsInit_root (hheap : Reachable start heap live) (hpos : ∀ q, start.Free q → q ≠ 0#32)
    (name : Str) : (Vfs.start heap).Exhausted ∨ ∃ ptr v,
      vfsAllocNode name .dir 0#32 (.start heap) = some (ptr, v) ∧
        Vfs.Booting start 0 { v with root := ptr } ∧ Vfs.IsDir { v with root := ptr } ptr := by
  have hnone (q : U32) : (Vfs.start heap).deref q = none := by simp [Vfs.deref, Vfs.start]
  obtain ⟨l, hinv⟩ := hheap.heapInv hpos
  have hallocated : (Vfs.start heap).Allocated start :=
    ⟨live, l, hinv, fun q n hq => by simp [hnone] at hq⟩
  obtain hnull | ⟨ptr, heap', hrun, hptr, -, hkept⟩ := hallocated.kmalloc hpos
  · exact .inl hnull
  right
  let root : VfsNode := newNode name .dir 0#32
  let v : Vfs := ⟨heap', Function.update (fun _ => none) ptr (some root), ptr, 0#32⟩
  have hself : v.deref ptr = some root := by simp [v, Vfs.deref, hptr]
  have honly {q : U32} {n : VfsNode} (hq : v.deref q = some n) : q = ptr ∧ n = root := by
    by_cases hne : q = ptr
    · subst hne
      exact ⟨rfl, Option.some.inj (hq.symm.trans hself)⟩
    · simp [v, Vfs.deref, hne] at hq
  refine ⟨ptr, { v with root := 0#32 }, ?_, ⟨?_, ?_, ?_, ?_⟩, root, hself, rfl⟩
  · simp [vfsAllocNode, Vfs.start, Vfs.setNode, v, root] at hrun ⊢
    simp [hrun, hptr]
  · exact hkept v rfl fun q n hq => .inl (honly hq).1
  · refine ⟨fun _ => ⟨root, hself, rfl, rfl⟩, fun q n hq hne => absurd (honly hq).1 hne,
      fun q n hq c hc => ?_⟩
    obtain ⟨-, rfl⟩ := honly hq
    simp [root, newNode] at hc
  · refine ⟨fun q n hq hne => absurd (honly hq).1 hne, fun q n hq c hc => ?_⟩
    obtain ⟨-, rfl⟩ := honly hq
    simp [root, newNode] at hc
  · intro q n hq
    obtain ⟨-, rfl⟩ := honly hq
    simp [root, newNode]

/-- The result of `vfs_init` from the results of its calls. -/
theorem vfsInit_eq {root kernelDir shellDir ptr ptr' : U32} {v v₀ v₁ v₂ v₃ v₄ : Vfs}
    (h₀ : vfsAllocNode ⟨chars "/", by decide⟩ .dir 0#32 v = some (root, v₀))
    (h₁ : (VfsCall.mkdir root ⟨chars "kernel", by decide⟩).run { v₀ with root := root } =
      some (kernelDir, v₁))
    (h₂ : (VfsCall.mkdir root ⟨chars "shell", by decide⟩).run v₁ = some (shellDir, v₂))
    (h₃ : (VfsCall.createFile kernelDir ⟨chars "README", by decide⟩ (some kernelReadme)).run v₂ =
      some (ptr, v₃))
    (h₄ : (VfsCall.createFile shellDir ⟨chars "README", by decide⟩ (some shellReadme)).run v₃ =
      some (ptr', v₄)) :
    vfsInit v = some { v₄ with cwd := v₄.root } := by
  unfold VfsCall.run at h₁ h₂ h₃ h₄
  dsimp only at h₁ h₂ h₃ h₄
  simp only [vfsInit, h₀, h₁, h₂, h₃, h₄, Option.bind_some, Option.map_some]

/-- Without memory for the root `vfs_init` leaves no node. -/
theorem vfsInit_exhausted (h : (Vfs.start heap).Exhausted) :
    vfsInit (.start heap) = some (.start heap) :=
  vfsInit_eq h.allocNode (h.run _) (h.run _) (h.run _) (h.run _)

/-- `vfs_init` ends in a tree whose nodes agree, with the root as the current directory. When there
is no memory for the root, there is no node at all. -/
theorem vfsInit_spec (hheap : Reachable start heap live) (hpos : ∀ q, start.Free q → q ≠ 0#32) :
    ∃ v, vfsInit (.start heap) = some v ∧ v.Allocated start ∧ v.Tree ∧ v.Agrees ∧
      v.cwd = v.root ∧ ((Vfs.start heap).Exhausted ∧ v = .start heap ∨ v.IsDir v.root) ∧
      ∀ k, Serves vfsNodeSize (k + 5) heap → Serves vfsNodeSize k v.heap := by
  obtain hnull | ⟨root, v₀, hroot, hboot, hdir⟩ := vfsInit_root hheap hpos ⟨chars "/", by decide⟩
  · have hnone (q : U32) : (Vfs.start heap).deref q = none := by simp [Vfs.deref, Vfs.start]
    obtain ⟨l, hinv⟩ := hheap.heapInv hpos
    refine ⟨.start heap, ?_, ⟨live, l, hinv, fun q n hq => by simp [hnone] at hq⟩, ⟨?_, ?_, ?_⟩,
      ⟨?_, ?_⟩, rfl, .inl ⟨hnull, rfl⟩, fun k hserves => ?_⟩
    · exact vfsInit_exhausted hnull
    · exact fun h => absurd rfl h
    · exact fun q n hq => by simp [hnone] at hq
    · exact fun q n hq => by simp [hnone] at hq
    · exact fun q n hq => by simp [hnone] at hq
    · exact fun q n hq => by simp [hnone] at hq
    · exact absurd hserves (hnull.not_serves _)
  · obtain ⟨kernelDir, v₁, hrun₁, hboot₁, hroot₁, hready₁, hnode₁⟩ :=
      hboot.call (c := .mkdir root ⟨chars "kernel", by decide⟩) hpos (by decide) (.inr hdir)
    obtain ⟨shellDir, v₂, hrun₂, hboot₂, hroot₂, hready₂, hnode₂⟩ :=
      hboot₁.call (c := .mkdir root ⟨chars "shell", by decide⟩) hpos (by decide)
        (hready₁ _ (.inr hdir))
    have hkernel : v₂.Ready kernelDir :=
      hready₂ _ (hnode₁.imp_right fun hnode => ⟨_, hnode, rfl⟩)
    have hshell : v₂.Ready shellDir := hnode₂.imp_right fun hnode => ⟨_, hnode, rfl⟩
    obtain ⟨_, v₃, hrun₃, hboot₃, hroot₃, hready₃, -⟩ :=
      hboot₂.call (c := .createFile kernelDir ⟨chars "README", by decide⟩ (some kernelReadme)) hpos
        (by decide) hkernel
    obtain ⟨_, v₄, hrun₄, hboot₄, hroot₄, hready₄, -⟩ :=
      hboot₃.call (c := .createFile shellDir ⟨chars "README", by decide⟩ (some shellReadme)) hpos
        (by decide) (hready₃ _ hshell)
    refine ⟨_, vfsInit_eq hroot hrun₁ hrun₂ hrun₃ hrun₄, hboot₄.allocated,
      ⟨hboot₄.tree.root, hboot₄.tree.parent, hboot₄.tree.children⟩,
      ⟨hboot₄.agrees.listed, hboot₄.agrees.listing⟩, rfl, .inr ?_, fun k hserves => ?_⟩
    · have hroots : v₄.root = root := by rw [hroot₄, hroot₃, hroot₂, hroot₁]
      obtain ⟨r, hr, -⟩ := hdir
      obtain ⟨r', hr', htype, -⟩ := hboot₄.tree.root (hroots ▸ Vfs.ne_zero_of_deref hr)
      exact ⟨r', hr', htype⟩
    · obtain ⟨ptr, heap', hrun, -, hserves⟩ := hserves
      obtain ⟨rfl, rfl⟩ :=
        Prod.mk.inj (Option.some.inj ((vfsAllocNode_heap hroot).symm.trans hrun))
      have hserves₁ := (VfsCall.run_serves hrun₁ hserves).2
      have hserves₂ := (VfsCall.run_serves hrun₂ hserves₁).2
      have hserves₃ := (VfsCall.run_serves hrun₃ hserves₂).2
      exact (VfsCall.run_serves hrun₄ hserves₃).2

/-- A call on a directory of a tree changes nothing, or adds its node. -/
theorem VfsCall.run_outcome (h : v.Allocated start) (hpos : ∀ q, start.Free q → q ≠ 0#32)
    (hp : v.deref c.parent = some n) (hrun : c.run v = some (ptr, v')) :
    ptr = 0#32 ∧ v' = v ∨ v.Adds c.node ptr v' ∧ v'.Allocated start := by
  obtain hex | ⟨ptr', w, hrun', hadds, hallocated⟩ := run_cases h hpos hp
  · obtain ⟨rfl, rfl⟩ := Prod.mk.inj (Option.some.inj ((hex.run c).symm.trans hrun))
    exact .inl ⟨rfl, rfl⟩
  · obtain ⟨rfl, rfl⟩ := Prod.mk.inj (Option.some.inj (hrun'.symm.trans hrun))
    exact .inr ⟨hadds, hallocated⟩

/-- What a run leaves: a tree in which the nodes of the calls are listed as their directories had
room, and all other nodes except the root are listed. -/
structure Vfs.Records (start : Pmm) (v : Vfs) (log : List VfsReturn) : Prop where
  allocated : v.Allocated start
  tree : v.Tree
  returned : ∀ r ∈ log, r.node ≠ 0#32 → r.node ≠ v.root ∧
    (∃ m, v.deref r.node = some m ∧ m.parent = r.call.parent) ∧
      v.listings r.call.parent r.node = if r.childCount < vfsMaxChildren then 1 else 0
  others : ∀ q m, v.deref q = some m → q ≠ v.root →
    (∃ r ∈ log, r.node = q) ∨ v.listings m.parent q = 1

/-- A call in a run. -/
theorem Vfs.Records.call (h : v.Records start log) (hpos : ∀ q, start.Free q → q ≠ 0#32)
    (hp : v.deref c.parent = some n) (hdir : n.type = .dir) (hrun : c.run v = some (ptr, v')) :
    v'.Records start (log ++ [⟨c, ptr, n.children.length⟩]) := by
  obtain ⟨rfl, rfl⟩ | ⟨hadds, hallocated⟩ := VfsCall.run_outcome h.allocated hpos hp hrun
  · refine ⟨h.allocated, h.tree, fun r hr hne => ?_, fun q m hq hne => ?_⟩
    · rcases List.mem_append.mp hr with hr | hr
      · exact h.returned r hr hne
      · obtain rfl := List.mem_singleton.mp hr
        exact absurd rfl hne
    · exact (h.others q m hq hne).imp_left fun ⟨r, hr, hq⟩ => ⟨r, List.mem_append_left _ hr, hq⟩
  · have hp' : v.deref c.node.parent = some n := by rwa [c.node_parent]
    have hlistings := hadds.listings hp' c.node_children
    have hold {q : U32} {m : VfsNode} (hq : v.deref q = some m) : q ≠ ptr := by
      rintro rfl
      simp [hadds.fresh] at hq
    refine ⟨hallocated, hadds.tree h.tree ⟨n, hp', hdir⟩ c.node_children, fun r hr hne => ?_,
      fun q m hq hne => ?_⟩
    · rcases List.mem_append.mp hr with hr | hr
      · obtain ⟨hroot, ⟨m, hm, hparent⟩, hcount⟩ := h.returned r hr hne
        obtain ⟨m', hm', -, -, hparent'⟩ := hadds.kept_fields hm
        refine ⟨hadds.root ▸ hroot, ⟨m', hm', hparent'.trans hparent⟩, ?_⟩
        rw [hlistings, hcount]
        simp [hold hm]
      · obtain rfl := List.mem_singleton.mp hr
        refine ⟨hadds.ne_root h.tree, ⟨c.node, hadds.added, c.node_parent⟩, ?_⟩
        rw [hlistings, hadds.listings_new h.tree]
        simp [c.node_parent]
    · obtain ⟨rfl, rfl⟩ | ⟨m, hm, rfl⟩ := hadds.cases hq
      · exact .inl ⟨_, List.mem_append_right _ (List.mem_singleton_self _), rfl⟩
      · rw [hadds.root] at hne
        refine (h.others q m hm hne).imp (fun ⟨r, hr, hq⟩ => ⟨r, List.mem_append_left _ hr, hq⟩)
          fun hcount => ?_
        rw [VfsNode.ite_addChild_parent, hlistings, hcount]
        simp [hold hm]

/-- A whole run. -/
theorem VfsRun.records (h : VfsRun start v log) (hpos : ∀ q, start.Free q → q ≠ 0#32) :
    v.Records start log := by
  induction h with
  | init hheap hinit =>
    obtain ⟨v', hinit', hallocated, htree, hagrees, -⟩ := vfsInit_spec hheap hpos
    obtain rfl := Option.some.inj (hinit'.symm.trans hinit)
    exact ⟨hallocated, htree, by simp, fun q m hq hne => .inr (hagrees.listed q m hq hne)⟩
  | call _ c hparent hdir hrun ih => exact ih.call hpos hparent hdir hrun

end

/-- Every created node is in the tree exactly when its directory had room. In every run of calls
since `vfs_init` a node that a call returned is listed once by its parent if the parent had fewer
than sixteen children before that call, and not at all otherwise. So parent pointers and child
lists describe the same tree if and only if no node was created in a full directory. -/
theorem created_listed_iff {m : Memory} {kernelEnd multibootInfoAddr : U32} {turns : ℕ}
    {boot start : Pmm} {v : Vfs} {log : List VfsReturn}
    (hinit : pmmInit m kernelEnd turns multibootInfoAddr boot = some start)
    (hrun : VfsRun start v log) :
    (∀ r ∈ log, r.node ≠ 0#32 →
      (v.listings r.call.parent r.node = 1 ↔ r.childCount < vfsMaxChildren)) ∧
    (v.Agrees ↔ ∀ r ∈ log, r.node ≠ 0#32 → r.childCount < vfsMaxChildren) := by
  have hrecords := hrun.records (free_ne_zero hinit)
  have hlisted (r : VfsReturn) (hr : r ∈ log) (hne : r.node ≠ 0#32) :
      v.listings r.call.parent r.node = 1 ↔ r.childCount < vfsMaxChildren := by
    rw [(hrecords.returned r hr hne).2.2]
    split_ifs with hroom <;> simp [hroom]
  refine ⟨hlisted, fun hagrees r hr hne => ?_, fun hrooms => ⟨fun q n hq hne => ?_,
    hrecords.tree.children⟩⟩
  · obtain ⟨hroot, ⟨n, hn, hparent⟩, -⟩ := hrecords.returned r hr hne
    have hcount := hagrees.listed r.node n hn hroot
    rw [hparent] at hcount
    exact (hlisted r hr hne).mp hcount
  · obtain ⟨r, hr, rfl⟩ | hcount := hrecords.others q n hq hne
    · have hnode := Vfs.ne_zero_of_deref hq
      obtain ⟨-, ⟨k, hk, hparent⟩, -⟩ := hrecords.returned r hr hnode
      obtain rfl := Option.some.inj (hk.symm.trans hq)
      rw [hparent]
      exact (hlisted r hr hnode).mpr (hrooms r hr hnode)
    · exact hcount

/-- One directory in the root after the other, as long as the heap serves them. -/
theorem VfsRun.mkdirs {start : Pmm} {v : Vfs} {log : List VfsReturn} {r : VfsNode}
    (hpos : ∀ q, start.Free q → q ≠ 0#32) (name : Str) (h : VfsRun start v log)
    (hr : v.deref v.root = some r) (hdir : r.type = .dir) {k j : ℕ}
    (hserves : Serves vfsNodeSize (k + j) v.heap) :
    ∃ v' log' r', VfsRun start v' log' ∧ v'.deref v'.root = some r' ∧ r'.type = .dir ∧
      min vfsMaxChildren (r.children.length + k) ≤ r'.children.length ∧
      Serves vfsNodeSize j v'.heap := by
  induction k generalizing v log r with
  | zero =>
    refine ⟨v, log, r, h, hr, hdir, ?_, by simpa using hserves⟩
    omega
  | succ k ih =>
    have hrecords := h.records hpos
    rw [Nat.succ_add] at hserves
    obtain hex | ⟨ptr, v', hrun, hadds, -⟩ :=
      VfsCall.run_cases (c := .mkdir v.root name) hrecords.allocated hpos hr
    · exact absurd hserves (hex.not_serves _)
    · have hnext := h.call (.mkdir v.root name) hr hdir hrun
      have hr' := hadds.kept hr
      rw [← hadds.root] at hr'
      obtain ⟨v'', log'', r'', h'', hr'', hdir'', hle, hserves''⟩ :=
        ih hnext hr' (by split_ifs <;> simpa using hdir) (VfsCall.run_serves hrun hserves).2
      refine ⟨v'', log'', r'', h'', hr'', hdir'', ?_, hserves''⟩
      rw [if_pos (by rw [VfsCall.node_parent, hadds.root]; rfl)] at hle
      by_cases hroom : r.children.length < vfsMaxChildren
      · rw [VfsNode.addChild_of_lt hroom, List.length_append, List.length_singleton] at hle
        omega
      · rw [VfsNode.addChild_of_le (Nat.not_lt.mp hroom)] at hle
        omega

/-- After the boot with one region `vfs_init` creates the root, and memory for more nodes is
left. -/
theorem vfsInit_oneRegion : ∃ start heap v r,
    pmmInit oneRegion 0x180000#32 2 0x1000#32 ⟨fun _ => 0#8, 0#32⟩ = some start ∧
      Reachable start heap ∅ ∧ vfsInit (.start heap) = some v ∧ v.deref v.root = some r ∧
      r.type = .dir ∧ Serves vfsNodeSize 17 v.heap := by
  obtain ⟨start, heap, first, got, hinit, hrun, hinv, -, hpages⟩ := heapInit_oneRegion
  have hpos := free_ne_zero hinit
  have hserves : Serves vfsNodeSize (17 + 5) heap := by
    have hsize := size_newBlock hpages
    have hgot := (obtains_oneRegion hinit hpages).2.1
    have halign : (alignUp vfsNodeSize alignment).toNat = 368 := by decide
    refine hinv.serves hpos (by decide) _ ⟨_, List.mem_singleton_self _, rfl, ?_⟩
    rw [halign, hsize, hgot]
    decide
  have hheap : Reachable start heap ∅ := .init rfl hrun
  obtain ⟨v, hv, -, -, -, -, hroot, hleft⟩ := vfsInit_spec hheap hpos
  obtain ⟨hex, -⟩ | ⟨r, hr, hdir⟩ := hroot
  · exact absurd hserves (hex.not_serves _)
  · exact ⟨start, heap, v, r, hinit, hheap, hv, hr, hdir, hleft 17 hserves⟩

/-- A run fills the root directory and then creates a node in it. -/
theorem fullRoot_run : ∃ start v log r,
    pmmInit oneRegion 0x180000#32 2 0x1000#32 ⟨fun _ => 0#8, 0#32⟩ = some start ∧
      VfsRun start v log ∧ r ∈ log ∧ r.node ≠ 0#32 ∧ r.childCount = vfsMaxChildren := by
  obtain ⟨start, heap, v, r, hinit, hheap, hv, hr, hdir, hserves⟩ := vfsInit_oneRegion
  have hpos := free_ne_zero hinit
  obtain ⟨v', log, r', hlong, hr', hdir', hfull, hmore⟩ :=
    (VfsRun.init hheap hv).mkdirs hpos ⟨[], by simp⟩ hr hdir (k := 16) (j := 1) hserves
  have hcount : r'.children.length = vfsMaxChildren := by
    have hle := r'.childCount_le
    unfold vfsMaxChildren at hle hfull ⊢
    omega
  have hrecords := hlong.records hpos
  obtain hex | ⟨ptr, v'', hrun', hadds, -⟩ :=
    VfsCall.run_cases (c := .mkdir v'.root ⟨[], by simp⟩) hrecords.allocated hpos hr'
  · exact absurd hmore (hex.not_serves _)
  · exact ⟨start, v'', _, _, hinit, hlong.call (.mkdir v'.root ⟨[], by simp⟩) hr' hdir' hrun',
      List.mem_append_right _ (List.mem_singleton_self _), Vfs.ne_zero_of_deref hadds.added, hcount⟩

/-- The node that is created in the full root directory is not listed. -/
theorem fullRoot_not_listed : ∃ start v log r,
    pmmInit oneRegion 0x180000#32 2 0x1000#32 ⟨fun _ => 0#8, 0#32⟩ = some start ∧
      VfsRun start v log ∧ r ∈ log ∧ r.node ≠ 0#32 ∧ v.listings r.call.parent r.node ≠ 1 := by
  obtain ⟨start, v, log, r, hinit, hrun, hr, hne, hcount⟩ := fullRoot_run
  refine ⟨start, v, log, r, hinit, hrun, hr, hne, ?_⟩
  rw [((hrun.records (free_ne_zero hinit)).returned r hr hne).2.2, hcount]
  simp

/-- The lists and the parents disagree after that run, and its last node is not listed. -/
theorem fullRoot_created_listed : ∃ start v log r,
    pmmInit oneRegion 0x180000#32 2 0x1000#32 ⟨fun _ => 0#8, 0#32⟩ = some start ∧
      VfsRun start v log ∧ r ∈ log ∧ r.node ≠ 0#32 ∧ ¬ v.Agrees ∧
      v.listings r.call.parent r.node ≠ 1 := by
  obtain ⟨start, v, log, r, hinit, hrun, hr, hne, hcount⟩ := fullRoot_run
  obtain ⟨hlisted, hagrees⟩ := created_listed_iff hinit hrun
  have hfull : ¬ r.childCount < vfsMaxChildren := by rw [hcount]; exact lt_irrefl _
  exact ⟨start, v, log, r, hinit, hrun, hr, hne, fun h => hfull (hagrees.mp h r hr hne),
    fun h => hfull ((hlisted r hr hne).mp h)⟩

end AlderKernel.Fs
