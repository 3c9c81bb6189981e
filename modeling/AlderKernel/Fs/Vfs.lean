import AlderKernel.Drivers.Ps2
import AlderKernel.Mm.Heap

/-!
# The file system in memory

`kernel/fs/vfs.c`. Each node is an allocation of its own in the heap, so the nodes are kept by
their addresses. To follow a pointer at which no node is, the null pointer above all, has no result.
-/

namespace AlderKernel.Fs

open Machine Drivers Mm

/-- A string: the characters in front of its `'\0'`. -/
abbrev Str := { l : List U8 // 0#8 ∉ l }

/-- `VFS_MAX_NAME`. -/
def vfsMaxName : ℕ := 32

/-- `VFS_MAX_CHILDREN`. -/
def vfsMaxChildren : ℕ := 16

/-- `VFS_MAX_FILE_SIZE`. -/
def vfsMaxFileSize : ℕ := 256

/-- `vfs_type_t`. -/
inductive VfsType where
  | dir
  | file
  deriving DecidableEq

/-- `vfs_node_t`, with the first `child_count` children. -/
structure VfsNode where
  name : Str
  type : VfsType
  parent : U32
  children : List U32
  content : Str
  childCount_le : children.length ≤ vfsMaxChildren

/-- `sizeof(vfs_node_t)`. -/
def vfsNodeSize : U32 := 364#32

/-- The heap, the nodes in it, `vfs_root` and `vfs_cwd`. -/
structure Vfs where
  heap : Heap
  nodes : U32 → Option VfsNode
  root : U32
  cwd : U32

/-- Before `vfs_init` there are no nodes. -/
def Vfs.start (heap : Heap) : Vfs := ⟨heap, fun _ => none, 0#32, 0#32⟩

/-- `*p`. -/
def Vfs.deref (v : Vfs) (p : U32) : Option VfsNode := if p = 0#32 then none else v.nodes p

/-- `*p = n`. -/
def Vfs.setNode (p : U32) (n : VfsNode) (v : Vfs) : Vfs :=
  { v with nodes := Function.update v.nodes p (some n) }

/-- `name_copy` to an array of `max` characters. -/
def nameCopy (src : Str) (max : ℕ) : Str :=
  ⟨src.val.take (max - 1), fun h => src.property (List.mem_of_mem_take h)⟩

/-- `str_eq`. -/
def strEq : List U8 → List U8 → Bool
  | a :: as, b :: bs => if a ≠ b then false else strEq as bs
  | [], [] => true
  | _, _ => false

/-- `parent->children[parent->child_count++] = node`, unless the directory is full. -/
def VfsNode.addChild (parent : VfsNode) (node : U32) : VfsNode :=
  if h : parent.children.length < vfsMaxChildren then
    { parent with
      children := parent.children ++ [node]
      childCount_le := by simpa using h }
  else parent

/-- A node as `vfs_alloc_node` fills it in. -/
def newNode (name : Str) (type : VfsType) (parent : U32) : VfsNode where
  name := nameCopy name vfsMaxName
  type := type
  parent := parent
  children := []
  content := ⟨[], List.not_mem_nil⟩
  childCount_le := Nat.zero_le _

/-- `vfs_alloc_node`. -/
def vfsAllocNode (name : Str) (type : VfsType) (parent : U32) (v : Vfs) : Option (U32 × Vfs) :=
  (kmalloc vfsNodeSize v.heap).bind fun r =>
    let v := { v with heap := r.2 }
    if r.1 = 0#32 then some (0#32, v) else
    let v := v.setNode r.1 (newNode name type parent)
    if parent = 0#32 then some (r.1, v) else
    (v.deref parent).map fun p => (r.1, v.setNode parent (p.addChild r.1))

/-- `vfs_mkdir`. -/
def vfsMkdir (parent : U32) (name : Str) (v : Vfs) : Option (U32 × Vfs) :=
  vfsAllocNode name .dir parent v

/-- `vfs_create_file`. There is no content for a null pointer. -/
def vfsCreateFile (parent : U32) (name : Str) (content : Option Str) (v : Vfs) :
    Option (U32 × Vfs) :=
  (vfsAllocNode name .file parent v).bind fun r =>
    match content with
    | some content =>
      if r.1 = 0#32 then some r else
      (r.2.deref r.1).map fun n =>
        (r.1, r.2.setNode r.1 { n with content := nameCopy content vfsMaxFileSize })
    | none => some r

/-- The loop of `vfs_find_child`. -/
def findChildFrom (v : Vfs) (name : Str) : List U32 → Option U32
  | [] => some 0#32
  | child :: children =>
    (v.deref child).bind fun n =>
      if strEq n.name.val name.val then some child else findChildFrom v name children

/-- `vfs_find_child`. -/
def vfsFindChild (v : Vfs) (parent : U32) (name : Str) : Option U32 :=
  (v.deref parent).bind fun p => findChildFrom v name p.children

/-- The text of `/kernel/README`. -/
def kernelReadme : Str :=
  ⟨chars "AlderKernel in-RAM VFS.\nThis directory represents kernel space.", by decide⟩

/-- The text of `/shell/README`. -/
def shellReadme : Str :=
  ⟨chars "zSlash shell space.\nAdd shell-related files here as they show up.", by decide⟩

/-- `vfs_init`. -/
def vfsInit (v : Vfs) : Option Vfs :=
  (vfsAllocNode ⟨chars "/", by decide⟩ .dir 0#32 v).bind fun root =>
  (vfsMkdir root.1 ⟨chars "kernel", by decide⟩ { root.2 with root := root.1 }).bind fun kernelDir =>
  (vfsMkdir root.1 ⟨chars "shell", by decide⟩ kernelDir.2).bind fun shellDir =>
  (vfsCreateFile kernelDir.1 ⟨chars "README", by decide⟩ (some kernelReadme) shellDir.2).bind
    fun r =>
  (vfsCreateFile shellDir.1 ⟨chars "README", by decide⟩ (some shellReadme) r.2).map fun r =>
    { r.2 with cwd := r.2.root }

/-- `print_path_recursive`, with a bound on the depth of the recursion. -/
def printPathRecursive (v : Vfs) : ℕ → U32 → Option (List U8)
  | 0, _ => none
  | turns + 1, node =>
    (v.deref node).bind fun n =>
      if n.parent = 0#32 then some [] else
      (printPathRecursive v turns n.parent).map fun path => path ++ chars "/" ++ n.name.val

/-- `vfs_print_cwd_path`. The recursion has no result when it is deeper than there are addresses. -/
def vfsPrintCwdPath (v : Vfs) : Option (List U8) :=
  if v.cwd = v.root then some (chars "/") else printPathRecursive v (2 ^ 32) v.cwd

end AlderKernel.Fs
