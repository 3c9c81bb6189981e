import AlderKernel.Fs.Vfs
import AlderKernel.Mm.HeapRuns

/-!
# The tree of the file system

Each call that creates a node adds it behind the other children of its parent, and changes nothing
else. A directory that already has all its children keeps them, and the new node is in no directory
then.
-/

namespace AlderKernel.Fs

open Machine Mm

/-- A call that creates a node. -/
inductive VfsCall where
  | mkdir (parent : U32) (name : Str)
  | createFile (parent : U32) (name : Str) (content : Option Str)

namespace VfsCall

/-- The directory of the call. -/
def parent : VfsCall → U32
  | mkdir parent _ => parent
  | createFile parent _ _ => parent

/-- The call. -/
def run : VfsCall → Vfs → Option (U32 × Vfs)
  | mkdir parent name => vfsMkdir parent name
  | createFile parent name content => vfsCreateFile parent name content

/-- The node that the call creates. -/
def node : VfsCall → VfsNode
  | mkdir parent name => newNode name .dir parent
  | createFile parent name none => newNode name .file parent
  | createFile parent name (some content) =>
    { newNode name .file parent with content := nameCopy content vfsMaxFileSize }

end VfsCall

/-- The pointer to a directory. -/
def Vfs.IsDir (v : Vfs) (p : U32) : Prop := ∃ n, v.deref p = some n ∧ n.type = .dir

/-- The nodes are live allocations of a heap in order. -/
def Vfs.Allocated (start : Pmm) (v : Vfs) : Prop :=
  ∃ live l, HeapInv start v.heap live l ∧ ∀ p n, v.deref p = some n → p ∈ live

/-- Parents are directories, and the children of a directory have it as their parent. -/
structure Vfs.Tree (v : Vfs) : Prop where
  root : v.root ≠ 0#32 → ∃ r, v.deref v.root = some r ∧ r.type = .dir ∧ r.parent = 0#32
  parent : ∀ c n, v.deref c = some n → c ≠ v.root → v.IsDir n.parent
  children : ∀ p n, v.deref p = some n → ∀ c ∈ n.children, ∃ m, v.deref c = some m ∧ m.parent = p

/-- How often `c` stands among the children of `p`. -/
def Vfs.listings (v : Vfs) (p c : U32) : ℕ :=
  ((v.deref p).map fun n => n.children.count c).getD 0

/-- Parent pointers and child lists describe the same tree: each node except the root is listed
exactly once by its parent, and by no other node. -/
structure Vfs.Agrees (v : Vfs) : Prop where
  listed : ∀ c n, v.deref c = some n → c ≠ v.root → v.listings n.parent c = 1
  listing : ∀ p n, v.deref p = some n → ∀ c ∈ n.children, ∃ m, v.deref c = some m ∧ m.parent = p

/-- The heap has no memory for a further node. -/
def Vfs.Exhausted (v : Vfs) : Prop := kmalloc vfsNodeSize v.heap = some (0#32, v.heap)

/-- The second file system is the first one with a new node, as a child of its parent if there is
room. -/
structure Vfs.Adds (node : VfsNode) (ptr : U32) (v v' : Vfs) : Prop where
  fresh : v.deref ptr = none
  added : v'.deref ptr = some node
  parent : ∃ p, v.deref node.parent = some p ∧ v'.deref node.parent = some (p.addChild ptr)
  others : ∀ q, q ≠ ptr → q ≠ node.parent → v'.deref q = v.deref q
  root : v'.root = v.root
  cwd : v'.cwd = v.cwd

section

variable {v v' : Vfs} {p q ptr : U32} {n m node : VfsNode} {c : VfsCall}

/-- The null pointer points to no node. -/
@[simp] theorem Vfs.deref_zero (v : Vfs) : v.deref 0#32 = none := if_pos rfl

/-- There is no node at the null pointer. -/
theorem Vfs.ne_zero_of_deref (h : v.deref p = some n) : p ≠ 0#32 := by
  rintro rfl
  simp at h

/-- A node that is set is found. -/
@[simp] theorem Vfs.deref_setNode_self (h : p ≠ 0#32) : (v.setNode p n).deref p = some n := by
  simp [deref, setNode, h]

/-- Setting a node keeps the others. -/
@[simp] theorem Vfs.deref_setNode_of_ne (h : q ≠ p) : (v.setNode p n).deref q = v.deref q := by
  simp [deref, setNode, h]

/-- A new child leaves the name alone. -/
@[simp] theorem VfsNode.addChild_name : (n.addChild ptr).name = n.name := by
  unfold addChild
  split_ifs <;> rfl

/-- A new child leaves the type alone. -/
@[simp] theorem VfsNode.addChild_type : (n.addChild ptr).type = n.type := by
  unfold addChild
  split_ifs <;> rfl

/-- A new child leaves the parent alone. -/
@[simp] theorem VfsNode.addChild_parent : (n.addChild ptr).parent = n.parent := by
  unfold addChild
  split_ifs <;> rfl

/-- With a new child or without one the parent is the same. -/
@[simp] theorem VfsNode.ite_addChild_parent {P : Prop} [Decidable P] :
    (if P then n.addChild ptr else n).parent = n.parent := by
  split_ifs <;> simp

/-- A child is added behind the others while there is room. -/
theorem VfsNode.addChild_of_lt (h : n.children.length < vfsMaxChildren) :
    (n.addChild ptr).children = n.children ++ [ptr] := by
  simp [addChild, h]

/-- No child is added to a full node. -/
theorem VfsNode.addChild_of_le (h : vfsMaxChildren ≤ n.children.length) :
    n.addChild ptr = n := by
  simp [addChild, h]

/-- A child of the changed directory is an old child or the new one. -/
theorem VfsNode.mem_addChild (h : q ∈ (n.addChild ptr).children) : q ∈ n.children ∨ q = ptr := by
  by_cases hroom : n.children.length < vfsMaxChildren
  · simpa [addChild_of_lt hroom] using h
  · rw [addChild_of_le (Nat.not_lt.mp hroom)] at h
    exact .inl h

/-- The new node has the parent of the call. -/
theorem VfsCall.node_parent (c : VfsCall) : c.node.parent = c.parent := by
  rcases c with _ | ⟨_, _, _ | _⟩ <;> rfl

/-- The new node has no children. -/
theorem VfsCall.node_children (c : VfsCall) : c.node.children = [] := by
  rcases c with _ | ⟨_, _, _ | _⟩ <;> rfl

namespace Vfs.Adds

/-- The nodes that were there stay, the parent with one child more. -/
theorem kept (h : v.Adds node ptr v') (hq : v.deref q = some n) :
    v'.deref q = some (if q = node.parent then n.addChild ptr else n) := by
  obtain ⟨p, hp, hp'⟩ := h.parent
  split_ifs with heq
  · subst heq
    rw [hp] at hq
    obtain rfl := Option.some.inj hq
    exact hp'
  · rw [h.others q ?_ heq, hq]
    rintro rfl
    simp [h.fresh] at hq

/-- A node after the step is the new one or was there before. -/
theorem cases (h : v.Adds node ptr v') (hq : v'.deref q = some m) :
    (q = ptr ∧ m = node) ∨ ∃ n, v.deref q = some n ∧
      m = if q = node.parent then n.addChild ptr else n := by
  by_cases hptr : q = ptr
  · subst hptr
    rw [h.added] at hq
    exact .inl ⟨rfl, (Option.some.inj hq).symm⟩
  · obtain ⟨n, hn⟩ : ∃ n, v.deref q = some n := by
      by_cases hparent : q = node.parent
      · obtain ⟨p, hp, -⟩ := h.parent
        exact ⟨p, by rw [hparent, hp]⟩
      · exact ⟨m, by rw [← h.others q hptr hparent, hq]⟩
    exact .inr ⟨n, hn, Option.some.inj (hq.symm.trans (h.kept hn))⟩

/-- A node keeps everything but its children. -/
theorem kept_fields (h : v.Adds node ptr v') (hq : v.deref q = some n) :
    ∃ n', v'.deref q = some n' ∧ n'.name = n.name ∧ n'.type = n.type ∧ n'.parent = n.parent := by
  refine ⟨_, h.kept hq, ?_⟩
  split_ifs <;> simp

/-- Directories stay directories. -/
theorem isDir (h : v.Adds node ptr v') (hq : v.IsDir q) : v'.IsDir q := by
  obtain ⟨n, hn, htype⟩ := hq
  obtain ⟨n', hn', -, htype', -⟩ := h.kept_fields hn
  exact ⟨n', hn', htype'.trans htype⟩

/-- The new node is not the root. -/
theorem ne_root (h : v.Adds node ptr v') (htree : v.Tree) : ptr ≠ v'.root := by
  rw [h.root]
  rintro rfl
  obtain ⟨r, hr, -⟩ := htree.root (ne_zero_of_deref h.added)
  simp [h.fresh] at hr

/-- A new node is no child of a directory yet. -/
theorem not_mem (h : v.Adds node ptr v') (htree : v.Tree) (hp : v.deref p = some n) :
    ptr ∉ n.children := by
  intro hmem
  obtain ⟨m, hm, -⟩ := htree.children p n hp ptr hmem
  simp [h.fresh] at hm

/-- Adding a node keeps the tree. -/
theorem tree (h : v.Adds node ptr v') (htree : v.Tree) (hdir : v.IsDir node.parent)
    (hchildren : node.children = []) : v'.Tree where
  root hroot := by
    rw [h.root] at hroot ⊢
    obtain ⟨r, hr, htype, hparent⟩ := htree.root hroot
    obtain ⟨r', hr', -, htype', hparent'⟩ := h.kept_fields hr
    exact ⟨r', hr', htype'.trans htype, hparent'.trans hparent⟩
  parent q m hq hne := by
    rw [h.root] at hne
    obtain ⟨-, rfl⟩ | ⟨n, hn, rfl⟩ := h.cases hq
    · exact h.isDir hdir
    · rw [VfsNode.ite_addChild_parent]
      exact h.isDir (htree.parent q n hn hne)
  children q m hq c hc := by
    obtain ⟨-, rfl⟩ | ⟨n, hn, rfl⟩ := h.cases hq
    · simp [hchildren] at hc
    · have hold (hc : c ∈ n.children) : ∃ m, v'.deref c = some m ∧ m.parent = q := by
        obtain ⟨m, hm, hparent⟩ := htree.children q n hn c hc
        obtain ⟨m', hm', -, -, hparent'⟩ := h.kept_fields hm
        exact ⟨m', hm', hparent'.trans hparent⟩
      split_ifs at hc with heq
      · rcases VfsNode.mem_addChild hc with hc | rfl
        · exact hold hc
        · exact ⟨node, h.added, heq.symm⟩
      · exact hold hc

/-- What the step does to the child lists. -/
theorem listings (h : v.Adds node ptr v') (hp : v.deref node.parent = some n)
    (hchildren : node.children = []) (q c : U32) :
    v'.listings q c = v.listings q c +
      if q = node.parent ∧ c = ptr ∧ n.children.length < vfsMaxChildren then 1 else 0 := by
  unfold Vfs.listings
  by_cases hptr : q = ptr
  · subst hptr
    have hne : q ≠ node.parent := by
      rintro heq
      simp [← heq, h.fresh] at hp
    simp [h.added, h.fresh, hchildren, hne]
  by_cases hparent : q = node.parent
  · subst hparent
    rw [h.kept hp, hp, if_pos rfl]
    by_cases hroom : n.children.length < vfsMaxChildren
    · by_cases hc : c = ptr
      · simp [VfsNode.addChild_of_lt hroom, hroom, hc]
      · simp [VfsNode.addChild_of_lt hroom, List.count_append, hc, Ne.symm hc]
    · simp [VfsNode.addChild_of_le (Nat.not_lt.mp hroom), hroom]
  · simp [h.others q hptr hparent, hparent]

/-- Before the step the new node is in no child list. -/
theorem listings_new (h : v.Adds node ptr v') (htree : v.Tree) (q : U32) :
    v.listings q ptr = 0 := by
  unfold Vfs.listings
  cases hq : v.deref q with
  | none => rfl
  | some n => simp [List.count_eq_zero, h.not_mem htree hq]

end Vfs.Adds

end

section

variable {start : Pmm} {v v' : Vfs} {parent ptr : U32} {type : VfsType} {name : Str} {p : VfsNode}
  {c : VfsCall}

/-- `kmalloc` of a node, as far as the file system depends on it. -/
theorem Vfs.Allocated.kmalloc (h : v.Allocated start) (hpos : ∀ q, start.Free q → q ≠ 0#32) :
    v.Exhausted ∨ ∃ ptr heap, Mm.kmalloc vfsNodeSize v.heap = some (ptr, heap) ∧ ptr ≠ 0#32 ∧
      v.deref ptr = none ∧ ∀ w : Vfs, w.heap = heap →
        (∀ q n, w.deref q = some n → q = ptr ∨ ∃ m, v.deref q = some m) → w.Allocated start := by
  obtain ⟨live, l, hinv, hlive⟩ := h
  obtain hnull | ⟨ptr, heap, l', hrun, hptr, hfresh, hinv'⟩ :=
    hinv.kmalloc_page hpos (n := vfsNodeSize) (by decide) (by decide)
  · exact .inl hnull
  · refine .inr ⟨ptr, heap, hrun, hptr, ?_, fun w hheap hnodes => ?_⟩
    · rw [Option.eq_none_iff_forall_ne_some]
      exact fun n hn => hfresh (hlive ptr n hn)
    · refine ⟨insert ptr live, l', hheap ▸ hinv', fun q n hq => ?_⟩
      rcases hnodes q n hq with rfl | ⟨m, hm⟩
      · exact Set.mem_insert q live
      · exact Set.mem_insert_of_mem _ (hlive q m hm)

/-- Without memory a call returns the null pointer and changes nothing. -/
theorem Vfs.Exhausted.allocNode (h : v.Exhausted) :
    vfsAllocNode name type parent v = some (0#32, v) := by
  unfold Vfs.Exhausted at h
  simp [vfsAllocNode, h]

/-- Without memory a call returns the null pointer and changes nothing. -/
theorem Vfs.Exhausted.run (h : v.Exhausted) (c : VfsCall) : c.run v = some (0#32, v) := by
  rcases c with _ | ⟨_, _, _ | _⟩ <;> simp [VfsCall.run, vfsMkdir, vfsCreateFile, h.allocNode]

/-- `vfs_alloc_node` in a directory. -/
theorem Vfs.Allocated.allocNode (h : v.Allocated start) (hpos : ∀ q, start.Free q → q ≠ 0#32)
    (hp : v.deref parent = some p) (name : Str) (type : VfsType) :
    v.Exhausted ∨ ∃ ptr v', vfsAllocNode name type parent v = some (ptr, v') ∧
      v.Adds (newNode name type parent) ptr v' ∧ v'.Allocated start := by
  refine (h.kmalloc hpos).imp_right fun ⟨ptr, heap, hrun, hptr, hfresh, hallocated⟩ => ?_
  have hparent := ne_zero_of_deref hp
  have hne : parent ≠ ptr := by
    rintro rfl
    simp [hfresh] at hp
  let w : Vfs := { v with heap := heap }
  have hw (q : U32) : w.deref q = v.deref q := rfl
  have hp' : (w.setNode ptr (newNode name type parent)).deref parent = some p := by
    rw [deref_setNode_of_ne hne, hw, hp]
  have hadds : v.Adds (newNode name type parent) ptr
      ((w.setNode ptr (newNode name type parent)).setNode parent (p.addChild ptr)) := by
    refine ⟨hfresh, ?_, ⟨p, hp, ?_⟩, fun q hq hq' => ?_, rfl, rfl⟩
    · rw [deref_setNode_of_ne hne.symm, deref_setNode_self hptr]
    · exact deref_setNode_self hparent
    · change q ≠ parent at hq'
      rw [deref_setNode_of_ne hq', deref_setNode_of_ne hq, hw]
  refine ⟨ptr, _, ?_, hadds, hallocated _ rfl fun q n hq => ?_⟩
  · simp [vfsAllocNode, hrun, hptr, hparent, hp', w]
  · obtain ⟨rfl, -⟩ | ⟨m, hm, -⟩ := hadds.cases hq
    · exact .inl rfl
    · exact .inr ⟨m, hm⟩

/-- A call asks for memory once. -/
theorem vfsAllocNode_heap (h : vfsAllocNode name type parent v = some (ptr, v')) :
    Mm.kmalloc vfsNodeSize v.heap = some (ptr, v'.heap) := by
  obtain ⟨⟨q, heap⟩, hrun, hrest⟩ := Option.bind_eq_some_iff.mp h
  rw [hrun]
  dsimp only at hrest
  split_ifs at hrest with hnull hparent
  · obtain ⟨rfl, rfl⟩ := Prod.mk.inj (Option.some.inj hrest)
    rw [hnull]
  · obtain ⟨rfl, rfl⟩ := Prod.mk.inj (Option.some.inj hrest)
    rfl
  · obtain ⟨p, -, hpair⟩ := Option.map_eq_some_iff.mp hrest
    obtain ⟨rfl, rfl⟩ := Prod.mk.inj hpair
    rfl

/-- The node of a call comes from `kmalloc`. -/
theorem VfsCall.run_heap (h : c.run v = some (ptr, v')) :
    Mm.kmalloc vfsNodeSize v.heap = some (ptr, v'.heap) := by
  cases c with
  | mkdir parent name => exact vfsAllocNode_heap h
  | createFile parent name content =>
    obtain ⟨⟨q, w⟩, hrun, hrest⟩ := Option.bind_eq_some_iff.mp h
    rw [vfsAllocNode_heap hrun]
    cases content with
    | none =>
      obtain ⟨rfl, rfl⟩ := Prod.mk.inj (Option.some.inj hrest)
      rfl
    | some content =>
      dsimp only at hrest
      split_ifs at hrest
      · obtain ⟨rfl, rfl⟩ := Prod.mk.inj (Option.some.inj hrest)
        rfl
      · obtain ⟨n, -, hpair⟩ := Option.map_eq_some_iff.mp hrest
        obtain ⟨rfl, rfl⟩ := Prod.mk.inj hpair
        rfl

/-- A call takes one of the nodes that the heap can serve. -/
theorem VfsCall.run_serves (h : c.run v = some (ptr, v')) {k : ℕ}
    (hserves : Serves vfsNodeSize (k + 1) v.heap) :
    ptr ≠ 0#32 ∧ Serves vfsNodeSize k v'.heap := by
  obtain ⟨q, heap, hrun, hq, hrest⟩ := hserves
  obtain ⟨rfl, rfl⟩ := Prod.mk.inj (Option.some.inj ((run_heap h).symm.trans hrun))
  exact ⟨hq, hrest⟩

/-- A heap that serves a node has memory. -/
theorem Vfs.Exhausted.not_serves (h : v.Exhausted) (k : ℕ) :
    ¬ Serves vfsNodeSize (k + 1) v.heap := by
  rintro ⟨q, heap, hrun, hq, -⟩
  obtain ⟨rfl, -⟩ := Prod.mk.inj (Option.some.inj (hrun.symm.trans h))
  exact hq rfl

/-- Filling in the content of a new node. -/
theorem Vfs.Adds.setContent {n : VfsNode} (h : v.Adds n ptr v') (content : Str) :
    v.Adds { n with content := content } ptr (v'.setNode ptr { n with content := content }) := by
  have hptr := ne_zero_of_deref h.added
  obtain ⟨p, hp, hp'⟩ := h.parent
  have hne : n.parent ≠ ptr := by
    rintro heq
    simp [heq, h.fresh] at hp
  refine ⟨h.fresh, deref_setNode_self hptr, ⟨p, hp, ?_⟩, fun q hq hq' => ?_, h.root, h.cwd⟩
  · rw [deref_setNode_of_ne hne, hp']
  · rw [deref_setNode_of_ne hq, h.others q hq hq']

/-- A call on a directory adds its node, or there is no memory. -/
theorem VfsCall.run_cases (h : v.Allocated start) (hpos : ∀ q, start.Free q → q ≠ 0#32)
    (hp : v.deref c.parent = some p) :
    v.Exhausted ∨ ∃ ptr v', c.run v = some (ptr, v') ∧ v.Adds c.node ptr v' ∧
      v'.Allocated start := by
  cases c with
  | mkdir parent name => exact h.allocNode hpos hp name .dir
  | createFile parent name content =>
    change v.deref parent = some p at hp
    refine (h.allocNode hpos hp name .file).imp_right fun ⟨ptr, v', hrun, hadds, hallocated⟩ => ?_
    cases content with
    | none => exact ⟨ptr, v', by simp [run, vfsCreateFile, hrun], hadds, hallocated⟩
    | some content =>
      have hptr := Vfs.ne_zero_of_deref hadds.added
      obtain ⟨live, l, hinv, hlive⟩ := hallocated
      refine ⟨ptr, _, ?_, hadds.setContent _, live, l, hinv, fun q n hq => ?_⟩
      · simp [run, vfsCreateFile, hrun, hptr, hadds.added]
      · by_cases hq' : q = ptr
        · exact hlive q _ (hq' ▸ hadds.added)
        · rw [Vfs.deref_setNode_of_ne hq'] at hq
          exact hlive q n hq

end

end AlderKernel.Fs
