import AlderKernel.Machine.Memory

/-!
# The ELF32 loader

`elf32_load` of `elf32.c`, over a flat memory in which the image, the segments'
destinations and `*out_entry` are all places of one address space. Fields are read
again wherever the C code reads them through a pointer after a store, so an image
that is overwritten while it is loaded is treated as the code treats it. Every byte
read through `image` is recorded with its offset.
-/

namespace AlderKernel.Elf

open Machine

/-- `sizeof(elf32_ehdr_t)`. -/
def ehdrSize : ℕ := 52

/-- `sizeof(elf32_phdr_t)`. -/
def phdrSize : ℕ := 32

/-- `ELFCLASS32`. -/
def elfClass32 : U8 := 1#8

/-- `ELFDATA2LSB`. -/
def elfData2Lsb : U8 := 1#8

/-- `ET_EXEC`. -/
def etExec : U16 := 2#16

/-- `EM_386`. -/
def em386 : U16 := 3#16

/-- `PT_LOAD`. -/
def ptLoad : U32 := 1#32

/-- Memory while the loader runs, with a record of what it read. -/
structure Loader where
  mem : Memory
  /-- Offsets from `image` of all image bytes read so far, oldest first. -/
  reads : List ℕ

namespace Loader

/-- Record a read of `n` bytes at an offset. -/
def log (s : Loader) (off n : ℕ) : Loader := { s with reads := s.reads ++ List.range' off n }

/-- Store one byte through a pointer. -/
def write (s : Loader) (a : U32) (v : U8) : Loader := { s with mem := s.mem.write a v }

/-- Read a byte of the image. -/
def read8 (s : Loader) (image : U32) (off : ℕ) : U8 × Loader :=
  (s.mem.byte (image + BitVec.ofNat 32 off), s.log off 1)

/-- Read a 16-bit field of the image. -/
def read16 (s : Loader) (image : U32) (off : ℕ) : U16 × Loader :=
  (s.mem.load16 (image + BitVec.ofNat 32 off), s.log off 2)

/-- Read a 32-bit field of the image. -/
def read32 (s : Loader) (image : U32) (off : ℕ) : U32 × Loader :=
  (s.mem.load32 (image + BitVec.ofNat 32 off), s.log off 4)

/-- `if (field != v) return 0;` on a byte of the image, then `next`. -/
def expect8 (s : Loader) (image : U32) (off : ℕ) (v : U8) (next : Loader → Bool × Loader) :
    Bool × Loader :=
  let (x, s) := s.read8 image off
  if x ≠ v then (false, s) else next s

/-- `if (field != v) return 0;` on a 16-bit field of the image, then `next`. -/
def expect16 (s : Loader) (image : U32) (off : ℕ) (v : U16) (next : Loader → Bool × Loader) :
    Bool × Loader :=
  let (x, s) := s.read16 image off
  if x ≠ v then (false, s) else next s

end Loader

/-- The checks on `e_ident`, `e_type`, `e_machine` and `e_phnum`, in order. -/
def checkHeader (image : U32) (s : Loader) : Bool × Loader :=
  s.expect8 image 0 0x7F#8 fun s =>
  s.expect8 image 1 0x45#8 fun s =>
  s.expect8 image 2 0x4C#8 fun s =>
  s.expect8 image 3 0x46#8 fun s =>
  s.expect8 image 4 elfClass32 fun s =>
  s.expect8 image 5 elfData2Lsb fun s =>
  s.expect16 image 16 etExec fun s =>
  s.expect16 image 18 em386 fun s =>
  let (phnum, s) := s.read16 image 44
  if phnum = 0#16 then (false, s) else (true, s)

/-- `for (b = 0; b < ph->p_filesz; b++) dest[b] = src[b];`, from index `b` on. The
index never reaches `2 ^ 32`, so that many turns are enough. -/
def copyFile (image : U32) (ph src : ℕ) (dest : U32) : ℕ → U32 → Loader → Loader
  | 0, _, s => s
  | turns + 1, b, s =>
    let (filesz, s) := s.read32 image (ph + 16)
    if b < filesz then
      let (v, s) := s.read8 image (src + b.toNat)
      copyFile image ph src dest turns (b + 1#32) (s.write (dest + b) v)
    else s

/-- `for (b = ph->p_filesz; b < ph->p_memsz; b++) dest[b] = 0;`, from index `b` on. -/
def zeroRest (image : U32) (ph : ℕ) (dest : U32) : ℕ → U32 → Loader → Loader
  | 0, _, s => s
  | turns + 1, b, s =>
    let (memsz, s) := s.read32 image (ph + 20)
    if b < memsz then zeroRest image ph dest turns (b + 1#32) (s.write (dest + b) 0#8)
    else s

/-- The body of the loop over the program headers: `false` where it returns 0. -/
def loadSegment (image imageSize : U32) (ph : ℕ) (s : Loader) : Bool × Loader :=
  let (pType, s) := s.read32 image ph
  if pType ≠ ptLoad then (true, s) else
  let (pOffset, s) := s.read32 image (ph + 4)
  if imageSize < pOffset then (false, s) else
  let (pFilesz, s) := s.read32 image (ph + 16)
  if imageSize - pOffset < pFilesz then (false, s) else
  let (pMemsz, s) := s.read32 image (ph + 20)
  if pMemsz < pFilesz then (false, s) else
  let (dest, s) := s.read32 image (ph + 8)
  let s := copyFile image ph pOffset.toNat dest (2 ^ 32) 0#32 s
  let (filesz, s) := s.read32 image (ph + 16)
  (true, zeroRest image ph dest (2 ^ 32) filesz s)

/-- The loop over the program headers from index `i` on, and the store to
`*out_entry` behind it. A 16-bit index allows at most `2 ^ 16` turns. -/
def loadSegments (image imageSize outEntry : U32) : ℕ → U16 → Loader → Bool × Loader
  | 0, _, s => (false, s)
  | turns + 1, i, s =>
    let (phnum, s) := s.read16 image 44
    if i < phnum then
      let (phoff, s) := s.read32 image 28
      let (phentsize, s) := s.read16 image 42
      let ph := (phoff + i.setWidth 32 * phentsize.setWidth 32).toNat
      let (ok, s) := loadSegment image imageSize ph s
      if ok then loadSegments image imageSize outEntry turns (i + 1#16) s else (false, s)
    else
      let (entry, s) := s.read32 image 24
      (true, { s with mem := s.mem.store32 outEntry entry })

/-- `elf32_load(image, image_size, out_entry)`. -/
def elf32Load (image imageSize outEntry : U32) (s : Loader) : Bool × Loader :=
  if image = 0#32 ∨ outEntry = 0#32 then (false, s) else
  if imageSize.toNat < ehdrSize then (false, s) else
  let (headerOk, s) := checkHeader image s
  if headerOk = false then (false, s) else
  let (phentsize, s) := s.read16 image 42
  let (phnum, s) := s.read16 image 44
  let phtableSize := phentsize.setWidth 32 * phnum.setWidth 32
  let (phoff, s) := s.read32 image 28
  if imageSize < phoff ∨ imageSize - phoff < phtableSize then (false, s) else
  loadSegments image imageSize outEntry (2 ^ 16) 0#16 s

/-- A call of `elf32_load` in a memory, with nothing recorded yet. -/
def load (m : Memory) (image imageSize outEntry : U32) : Bool × Loader :=
  elf32Load image imageSize outEntry ⟨m, []⟩

end AlderKernel.Elf
