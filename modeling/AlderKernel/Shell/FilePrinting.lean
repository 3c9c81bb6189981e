import AlderKernel.Shell.FileTree
import AlderKernel.Shell.ScreenPage
import AlderKernel.Mm.ClientData

/-!
# Files from the disk on the screen

`lsdisk` and `catdisk` of `kernel/shell/sysinfo_commands.c` with all that they print. `catdisk`
reads the file into a block of the heap and prints it from there. On any volume it gives the block
back and leaves what other clients have in the heap as it was.
-/

namespace AlderKernel.Shell

open Machine Drivers Fs Mm

/-- The bytes from `ptr` on, as a buffer. -/
def bufferAt (m : Memory) (ptr : U32) : U32 → U8 := fun i => m.byte (ptr + i)

/-- Memory with a buffer from `ptr` on. -/
def memoryWith (ptr : U32) (buffer : U32 → U8) : Memory := ⟨fun x => buffer (x - ptr)⟩

/-- The string at `p`, up to its first zero byte. There is none when no byte is zero. -/
def textAt (m : Memory) : ℕ → U32 → Option (List U8)
  | 0, _ => none
  | turns + 1, p =>
    if m.byte p = 0#8 then some [] else (textAt m turns (p + 1#32)).map (m.byte p :: ·)

section

variable {σ : Type} (a : Ata σ)

/-- `print_dirent`. -/
def printDirent (d : Dirent) : List PrintCall :=
  let kind := if d.attr &&& 0x10#8 ≠ 0#8 then chars "  DIR   " else chars "  FILE  "
  let ext : List PrintCall :=
    if cString d.ext ≠ [] then [.text (chars "."), .text (cString d.ext)] else []
  let size : List PrintCall :=
    if d.attr &&& 0x10#8 = 0#8 then [.text (chars "  ("), .uint d.size, .text (chars " bytes)")]
    else []
  .text kind :: .text (cString d.name) :: (ext ++ size ++ [PrintCall.text (chars "\n")])

/-- The end of `command_lsdisk`. -/
def printListing (r : ℤ × List Dirent) : List PrintCall :=
  if r.1 = 0 then [.text (chars "(empty)\n")] else
  let shown := if r.1 < 32 then r.1 else 32
  (r.2.take shown.toNat).flatMap printDirent

/-- What `command_lsdisk` and `command_catdisk` print without a volume. -/
def noVolume : List PrintCall :=
  [.text (chars "No FAT16 partition mounted - run mkpart/mkfs first.\n")]

/-- `command_lsdisk`. There is no argument for a null pointer. -/
def commandLsdisk (arg : Option (List U8)) (s : Fat16 σ) : List PrintCall × Fat16 σ :=
  let m := mountFat16Partition a s
  if ¬ m.1 then (noVolume, m.2) else
  match arg with
  | none =>
    let r := fat16ListRoot a 32 m.2
    (printListing r.1, r.2)
  | some arg =>
    let noDirectory := [PrintCall.text (chars "No such directory: "), .text (cString arg),
      .text (chars "\n")]
    let dir := fat16FindInRoot a arg [] m.2
    match dir.1 with
    | none => (noDirectory, dir.2)
    | some e =>
      if e.attr &&& 0x10#8 = 0#8 then (noDirectory, dir.2) else
      let r := fat16ListDir a e.cluster 32 dir.2
      (printListing r.1, r.2)

/-- The end of `command_catdisk`, with the entry of the file. -/
def printFile (file : Dirent) (h : Heap) (s : Fat16 σ) : Option (List PrintCall × Heap × Fat16 σ) :=
  if file.size = 0#32 then some ([.text (chars "(empty file)\n")], h, s) else
  (kmalloc (file.size + 1#32) h).bind fun block =>
    let buf := block.1
    let h := block.2
    if buf = 0#32 then some ([.text (chars "Out of heap memory.\n")], h, s) else
    (fat16ReadFile a file.cluster file.size (bufferAt h.mem buf) file.size s).bind fun r =>
      let h := { h with mem := memoryWith buf r.1.2 }
      if ¬ r.1.1 then some ([.text (chars "Read failed.\n")], kfree buf h, r.2) else
      let h := { h with mem := h.mem.write (buf + file.size) 0#8 }
      (textAt h.mem (2 ^ 32) buf).map fun text =>
        ([.text text, .text (chars "\n")], kfree buf h, r.2)

/-- `command_catdisk`. There is no argument for a null pointer. It has no result when one of its
loops does not end. -/
def commandCatdiskWhole (arg : Option (List U8)) (h : Heap) (s : Fat16 σ) :
    Option (List PrintCall × Heap × Fat16 σ) :=
  match arg with
  | none => some ([.text (chars "Usage: catdisk <file> or catdisk <dir>/<file>\n")], h, s)
  | some arg =>
    let m := mountFat16Partition a s
    if ¬ m.1 then some (noVolume, h, m.2) else
    let found := catdiskEntry a arg m.2
    match found.1 with
    | none => some ([.text (chars "File not found.\n")], h, found.2)
    | some file => printFile a file h found.2

end

/-! ### What a file tree shows -/

/-- The line of an item in a listing. -/
def itemLine (x : FileName × Item) : List U8 :=
  (match x.2 with
    | .file _ => chars "  FILE  "
    | .directory _ => chars "  DIR   ") ++ shownName 8 x.1.1 ++
  (if shownName 3 x.1.2 = [] then [] else chars "." ++ shownName 3 x.1.2) ++
  (match x.2 with
    | .file content => chars "  (" ++ decimalText content.length ++ chars " bytes)"
    | .directory _ => []) ++ chars "\n"

/-- A listing shows its first 32 lines. -/
def listText (lines : List (List U8)) : List U8 :=
  if lines = [] then chars "(empty)\n" else (lines.take 32).flatten

/-- What `lsdisk` shows of a tree. -/
def FileTree.lsText (t : FileTree) (arg : Option (List U8)) : List U8 :=
  match arg with
  | none => listText (t.map itemLine)
  | some arg =>
    match lookup t arg [] with
    | some (.directory files) => listText (chars "  DIR   .\n" :: chars "  DIR   ..\n" ::
        files.map fun x => itemLine (x.1, .file x.2))
    | _ => chars "No such directory: " ++ cString arg ++ chars "\n"

/-- What `catdisk` shows of a tree. -/
def FileTree.catText (t : FileTree) (arg : Option (List U8)) : List U8 :=
  match arg with
  | none => chars "Usage: catdisk <file> or catdisk <dir>/<file>\n"
  | some arg =>
    match t.path arg with
    | none => chars "File not found.\n"
    | some content =>
      if content = [] then chars "(empty file)\n" else cString content ++ chars "\n"

/-! ### Reading into memory -/

section

variable {σ : Type} {a : Ata σ}
  {base offset chunk bufferSize remaining readInCluster cluster i : U32}
  {buffer : U32 → U8} {turns : ℕ} {d : σ} {s : Fat16 σ}

/-- A sector that is copied leaves the bytes behind the buffer alone. -/
theorem copyToBuffer_outside {sector : Sector} {dest len : U32} (hi : bufferSize ≤ i) :
    copyToBuffer sector dest len bufferSize buffer i = buffer i :=
  if_neg fun h => BitVec.not_lt.mpr hi h.2

/-- A cluster that is read leaves the bytes behind the buffer alone. -/
theorem readClusterData_outside {k : U32} (buffer : U32 → U8) (hi : bufferSize ≤ i) :
    (readClusterData a base offset chunk bufferSize turns k readInCluster buffer d).1.2 i =
      buffer i := by
  induction turns generalizing k readInCluster buffer d with
  | zero => rfl
  | succ turns ih =>
    unfold readClusterData
    dsimp only
    by_cases hmore : readInCluster < chunk
    · rw [if_pos hmore]
      by_cases hread : (a.readSector (base + k) d).1.1 = true
      · rw [if_neg (not_not_intro hread), ih, copyToBuffer_outside hi]
      · rw [if_pos hread]
    · rw [if_neg hmore]

/-- Nothing is written behind the buffer. -/
theorem readClusters_outside {r : (Bool × (U32 → U8)) × Fat16 σ} (hi : bufferSize ≤ i)
    (hr : readClusters a bufferSize turns cluster offset remaining buffer s = some r) :
    r.1.2 i = buffer i := by
  induction turns generalizing cluster offset remaining buffer s with
  | zero => simp [readClusters] at hr
  | succ turns ih =>
    unfold readClusters at hr
    dsimp only at hr
    by_cases hmore : 0#32 < remaining
    · rw [if_pos hmore] at hr
      split_ifs at hr with hread hlast hend
      · obtain rfl := Option.some.inj hr
        exact readClusterData_outside buffer hi
      · obtain rfl := Option.some.inj hr
        exact readClusterData_outside buffer hi
      · rw [ih hr, readClusterData_outside buffer hi]
      · obtain rfl := Option.some.inj hr
        exact readClusterData_outside buffer hi
    · rw [if_neg hmore] at hr
      obtain rfl := Option.some.inj hr
      rfl

/-- On a mounted volume `fat16_read_file` ends and keeps to its buffer. -/
theorem fat16ReadFile_outside (hv : MountedVolume s.vol) (first size bufferSize : U32)
    (buffer : U32 → U8) : ∃ r, fat16ReadFile a first size buffer bufferSize s = some r ∧
      ∀ i : U32, bufferSize ≤ i → r.1.2 i = buffer i := by
  unfold fat16ReadFile
  by_cases hm : s.mounted = true
  · rw [if_neg (not_not_intro hm)]
    by_cases hempty : size = 0#32 ∨ first = 0#32
    · rw [if_pos hempty]
      exact ⟨_, rfl, fun _ _ => rfl⟩
    · rw [if_neg hempty]
      obtain ⟨r, hr⟩ : ∃ r, readClusters a bufferSize (2 ^ 32) first 0#32 size buffer s = some r :=
        readClusters_ends hv size.isLt
      exact ⟨r, hr, fun i hi => readClusters_outside hi hr⟩
  · rw [if_pos hm]
    exact ⟨_, rfl, fun _ _ => rfl⟩

/-- A write to the buffer is a write to its bytes. -/
theorem write_memoryWith {ptr v : U32} {c : U8} : (memoryWith ptr buffer).write (ptr + v) c =
    memoryWith ptr (Function.update buffer v c) := by
  ext1
  funext x
  rw [Memory.byte_write]
  unfold memoryWith
  by_cases hx : x = ptr + v
  · have hsub : x - ptr = v := by bv_omega
    simp only [hsub, Function.update_self, if_pos hx]
  · have hne : x - ptr ≠ v := by bv_omega
    simp only [if_neg hx, Function.update_of_ne hne]

/-- The string at an address ends at the first zero byte that follows. -/
theorem textAt_eq {m : Memory} {p : U32} {k turns : ℕ}
    (hzero : m.byte (p + BitVec.ofNat 32 k) = 0#8)
    (hturns : k < turns) : textAt m turns p =
      some (cString ((List.range k).map fun i => m.byte (p + BitVec.ofNat 32 i))) := by
  induction k generalizing p turns with
  | zero =>
    obtain ⟨turns, rfl⟩ : ∃ n, turns = n + 1 := ⟨turns - 1, by omega⟩
    rw [BitVec.add_zero] at hzero
    simp [textAt, hzero, cString]
  | succ k ih =>
    obtain ⟨turns, rfl⟩ : ∃ n, turns = n + 1 := ⟨turns - 1, by omega⟩
    have hnext (i : ℕ) : p + BitVec.ofNat 32 (i + 1) = p + 1#32 + BitVec.ofNat 32 i := by bv_omega
    have hrest := ih (p := p + 1#32) (by rw [← hnext]; exact hzero) (by omega : k < turns)
    have hbytes : (List.range (k + 1)).map (fun i => m.byte (p + BitVec.ofNat 32 i)) = m.byte p ::
        (List.range k).map fun i => m.byte (p + 1#32 + BitVec.ofNat 32 i) := by
      rw [List.range_succ_eq_map, List.map_cons, List.map_map, BitVec.add_zero]
      exact congrArg _ (List.map_congr_left fun i _ => congrArg m.byte (hnext i))
    rw [textAt, hbytes, hrest]
    by_cases hfirst : m.byte p = 0#8
    · simp [hfirst, cString]
    · simp [hfirst, cString]

end

/-! ### The block of `catdisk` -/

/-- Memory after the first `n` bytes of a buffer have been stored from `ptr` on. -/
def fill (ptr : U32) (buffer : U32 → U8) (n : ℕ) (m : Memory) : Memory :=
  ⟨fun x => if (x - ptr).toNat < n then buffer (x - ptr) else m.byte x⟩

section

variable {start : Pmm} {h h' : Heap} {live : Set U32} {bytes : ClientBytes} {l : List Block}
  {b : Block} {ptr : U32} {buffer : U32 → U8} {n : ℕ}

/-- One byte more of the buffer. -/
theorem fill_succ {m : Memory} (hn : n < 2 ^ 32) : fill ptr buffer (n + 1) m =
    (fill ptr buffer n m).write (ptr + BitVec.ofNat 32 n) (buffer (BitVec.ofNat 32 n)) := by
  ext1
  funext x
  rw [Memory.byte_write]
  by_cases hx : x = ptr + BitVec.ofNat 32 n
  · have hsub : x - ptr = BitVec.ofNat 32 n := by bv_omega
    rw [if_pos hx]
    simp only [fill, hsub]
    rw [if_pos (by bv_omega)]
  · have hne : (x - ptr).toNat ≠ n := by bv_omega
    rw [if_neg hx]
    simp only [fill]
    exact if_congr (by omega) rfl rfl

/-- A client may fill its block. -/
theorem fill_client (buffer : U32 → U8) (hb : b ∈ inUse l) (hinv : HeapInv start h live l)
    (hrun : ClientRun start h live bytes) (hn : n ≤ b.size.toNat) :
    HeapInv start { h with mem := fill (b.addr + headerSize) buffer n h.mem } live l ∧
      ∃ bytes',
        ClientRun start { h with mem := fill (b.addr + headerSize) buffer n h.mem } live bytes' ∧
        ∀ q ≠ b.addr + headerSize, bytes' q = bytes q := by
  induction n with
  | zero =>
    have hnone : fill (b.addr + headerSize) buffer 0 h.mem = h.mem := by
      simp [fill]
    rw [hnone]
    exact ⟨hinv, bytes, hrun, fun _ _ => rfl⟩
  | succ n ih =>
    obtain ⟨hinv', bytes', hrun', hkept⟩ := ih (by omega)
    have hlive : b.addr + headerSize ∈ live := (hinv.accounts.live _).mpr ⟨b, hb, rfl⟩
    have hsize : n < (field (fill (b.addr + headerSize) buffer n h.mem)
        (b.addr + headerSize - headerSize) .size).toNat := by
      have hfield := hinv'.field_size (List.mem_filter.mp hb).1
      rw [hfield]
      omega
    rw [fill_succ (by have := b.size.isLt; omega)]
    refine ⟨hinv'.store hlive hsize _, _, hrun'.store _ hlive n hsize _, fun q hq => ?_⟩
    rw [Function.update_of_ne hq, hkept q hq]

/-- What the clients had in the heap is there, and nothing else is live. -/
def SameClients (start : Pmm) (h' : Heap) (live : Set U32) (bytes : ClientBytes) : Prop :=
  ∃ bytes', ClientRun start h' live bytes' ∧ ∀ q ∈ live, bytes' q = bytes q

/-- A block is taken, filled and given back. -/
theorem borrow_client (hpos : ∀ q, start.Free q → q ≠ 0#32) (hrun : ClientRun start h live bytes)
    {n ptr : U32} (hn : n ≠ 0#32) (hmax : n ≤ maxRequest)
    (hmalloc : Mm.kmalloc n h = some (ptr, h')) (hptr : ptr ≠ 0#32) (buffer : U32 → U8)
    (hbuffer : ∀ i : U32, n ≤ i → buffer i = bufferAt h'.mem ptr i) :
    SameClients start (Mm.kfree ptr { h' with mem := memoryWith ptr buffer }) live bytes := by
  obtain ⟨l, hinv, -⟩ := hrun.holdsBytes hpos
  obtain ⟨r, l', hrun', hsteps⟩ := hinv.kmalloc_steps hpos hn
  obtain rfl := Option.some.inj (hmalloc.symm.trans hrun')
  have hfresh : ptr ∉ live := (hinv.fresh hpos hsteps).resolve_left hptr
  have htaken := hrun.kmalloc n hmalloc
  have hinv' := (hinv.steps hpos hsteps).1
  rw [if_neg hptr] at hinv'
  rw [if_neg hptr, if_neg hptr] at htaken
  obtain ⟨b, hb, rfl⟩ := (hinv'.accounts.live ptr).mp (Set.mem_insert _ _)
  obtain ⟨c, hc, hcb, hsize⟩ := hsteps.block.resolve_left hptr
  have hle : n.toNat ≤ b.size.toNat := by
    have hround := le_alignUp hmax
    have hfield := hinv'.field_size hc
    rw [hcb, hinv'.field_size (List.mem_filter.mp hb).1] at hfield
    rw [hfield]
    exact hround.trans hsize
  -- All bytes behind the request are what they were.
  have hfill : memoryWith (b.addr + headerSize) buffer =
      fill (b.addr + headerSize) buffer n.toNat h'.mem := by
    unfold memoryWith fill
    congr 1
    funext x
    split_ifs with hx
    · rfl
    · rw [hbuffer _ (BitVec.not_lt.mp hx), bufferAt]
      congr 1
      bv_omega
  obtain ⟨-, bytes', hfilled, hkept⟩ := fill_client buffer hb hinv' htaken hle
  rw [hfill]
  refine ⟨bytes', ?_, fun q hq => ?_⟩
  · have hfreed := hfilled.kfree (b.addr + headerSize) (.inr (Set.mem_insert _ _))
    rwa [Set.insert_sdiff_self_of_notMem hfresh] at hfreed
  · have hne : q ≠ b.addr + headerSize := fun heq => hfresh (heq ▸ hq)
    rw [hkept q hne, Function.update_of_ne hne]

/-- What `catdisk` does with the entry that it has selected. The block is given back, and the text
is what `fat16_read_file` has put in it. -/
theorem printFile_spec {σ : Type} {a : Ata σ} {file : Dirent} {s : Fat16 σ}
    (hpos : ∀ q, start.Free q → q ≠ 0#32) (hrun : ClientRun start h live bytes)
    (hv : MountedVolume s.vol) (hmax : file.size + 1#32 ≤ maxRequest) :
    ∃ calls h' s', printFile a file h s = some (calls, h', s') ∧ SameClients start h' live bytes ∧
      (file.size = 0#32 ∧ calls = [.text (chars "(empty file)\n")] ∧ s' = s ∨
      file.size ≠ 0#32 ∧ ∃ ptr h₁, Mm.kmalloc (file.size + 1#32) h = some (ptr, h₁) ∧
        (ptr = 0#32 ∧ calls = [.text (chars "Out of heap memory.\n")] ∧ s' = s ∨
        ptr ≠ 0#32 ∧ ∃ r, fat16ReadFile a file.cluster file.size (bufferAt h₁.mem ptr) file.size s =
          some r ∧ s' = r.2 ∧ calls = if r.1.1 then
            [.text (cString ((List.range file.size.toNat).map fun i => r.1.2 (BitVec.ofNat 32 i))),
              .text (chars "\n")] else [.text (chars "Read failed.\n")])) := by
  unfold printFile
  by_cases hempty : file.size = 0#32
  · rw [if_pos hempty]
    exact ⟨_, _, _, rfl, ⟨bytes, hrun, fun _ _ => rfl⟩, .inl ⟨hempty, rfl, rfl⟩⟩
  rw [if_neg hempty]
  obtain ⟨l, hinv, -⟩ := hrun.holdsBytes hpos
  obtain ⟨ptr, h₁, l', hmalloc, -, -⟩ := hinv.kmalloc hpos (file.size + 1#32)
  have htaken := hrun.kmalloc _ hmalloc
  rw [hmalloc, Option.bind_some]
  dsimp only
  by_cases hnull : ptr = 0#32
  · rw [if_pos hnull, if_pos hnull] at htaken
    rw [if_pos hnull]
    exact ⟨_, _, _, rfl, ⟨bytes, htaken, fun _ _ => rfl⟩,
      .inr ⟨hempty, ptr, h₁, rfl, .inl ⟨hnull, rfl, rfl⟩⟩⟩
  rw [if_neg hnull]
  have hsize : file.size + 1#32 ≠ 0#32 := by
    intro hzero
    rw [hzero] at hmalloc
    have hnone : Mm.kmalloc 0#32 h = some (0#32, h) := if_pos rfl
    rw [hnone] at hmalloc
    exact hnull (Prod.mk.inj (Option.some.inj hmalloc)).1.symm
  obtain ⟨r, hr, houtside⟩ := fat16ReadFile_outside (a := a) hv file.cluster file.size file.size
    (bufferAt h₁.mem ptr)
  rw [hr, Option.bind_some]
  have hbehind (i : U32) (hi : file.size + 1#32 ≤ i) : file.size ≤ i := by bv_omega
  cases hok : r.1.1 with
  | false =>
    rw [if_pos (by simp)]
    refine ⟨_, _, _, rfl, ?_, .inr ⟨hempty, ptr, h₁, rfl, .inr ⟨hnull, r, hr, rfl, ?_⟩⟩⟩
    · exact borrow_client hpos hrun hsize hmax hmalloc hnull r.1.2 fun i hi =>
        houtside i (hbehind i hi)
    · rw [hok]
      rfl
  | true =>
    rw [if_neg (by simp), write_memoryWith]
    have hbyte (i : ℕ) : (memoryWith ptr (Function.update r.1.2 file.size 0#8)).byte
        (ptr + BitVec.ofNat 32 i) = Function.update r.1.2 file.size 0#8 (BitVec.ofNat 32 i) := by
      have hsub : ptr + BitVec.ofNat 32 i - ptr = BitVec.ofNat 32 i := by bv_omega
      simp only [memoryWith, hsub]
    have hzero := hbyte file.size.toNat
    rw [BitVec.ofNat_toNat, BitVec.setWidth_eq, Function.update_self] at hzero
    have htext := textAt_eq (m := memoryWith ptr (Function.update r.1.2 file.size 0#8)) (p := ptr)
      (k := file.size.toNat) (by rw [BitVec.ofNat_toNat, BitVec.setWidth_eq]; exact hzero)
      file.size.isLt
    rw [htext]
    refine ⟨_, _, _, rfl, ?_, .inr ⟨hempty, ptr, h₁, rfl, .inr ⟨hnull, r, hr, rfl, ?_⟩⟩⟩
    · refine borrow_client hpos hrun hsize hmax hmalloc hnull _ fun i hi => ?_
      rw [Function.update_of_ne (by rintro rfl; bv_omega), houtside i (hbehind i hi)]
    · rw [hok, if_pos rfl]
      congr 3
      refine List.map_congr_left fun i hi => ?_
      have hlt : i < file.size.toNat := List.mem_range.mp hi
      rw [hbyte, Function.update_of_ne (by bv_omega)]

end

section

variable {σ : Type} {a : Ata σ} {s : Fat16 σ} {arg : List U8}

/-- A volume that `mount_fat16_partition` accepts can be read. -/
theorem mountFat16Partition_volume (h : (mountFat16Partition a s).1 = true) :
    MountedVolume (mountFat16Partition a s).2.vol := by
  unfold mountFat16Partition at *
  dsimp only at *
  split_ifs at h ⊢ with hused
  generalize ((List.finRange 4).find? fun i =>
    ((mbrReadPartitions a s.dev).1.2 i).type = 0x06#8) = slot at h ⊢
  cases slot with
  | none => exact absurd h (by simp)
  | some i => exact (fat16Mount_success (Prod.ext h rfl)).1

/-- Lookup in the root directory keeps the fields of the volume. -/
theorem findInRoot_vol (name ext : List U8) : (fat16FindInRoot a name ext s).2.vol = s.vol := by
  unfold fat16FindInRoot
  split_ifs <;> rfl

/-- Lookup in a subdirectory keeps the fields of the volume. -/
theorem findInDir_vol (c : U32) (name ext : List U8) :
    (fat16FindInDir a c name ext s).2.vol = s.vol := by
  unfold fat16FindInDir
  split_ifs <;> rfl

/-- Lookup behind a slash keeps the fields of the volume. -/
theorem findInDirectory_vol (arg : List U8) (slash : ℕ) :
    (findInDirectory a arg slash s).2.vol = s.vol := by
  have hdir : (fat16FindInRoot a ((cString arg).take slash) [] s).2.vol = s.vol :=
    findInRoot_vol _ _
  unfold findInDirectory
  dsimp only
  cases (fat16FindInRoot a ((cString arg).take slash) [] s).1 with
  | none => exact hdir
  | some e =>
    dsimp only
    split_ifs
    · exact hdir
    · cases splitName ((cString arg).drop (slash + 1)) with
      | none => exact (findInDir_vol _ _ _).trans hdir
      | some parts => exact (findInDir_vol _ _ _).trans hdir

/-- Looking for a file leaves the volume. -/
theorem catdiskEntry_vol (arg : List U8) : (catdiskEntry a arg s).2.vol = s.vol := by
  unfold catdiskEntry
  cases charIndex 0x2F#8 arg with
  | some slash => exact findInDirectory_vol arg slash
  | none =>
    have hwhole : (fat16FindInRoot a arg [] s).2.vol = s.vol := findInRoot_vol _ _
    dsimp only
    cases (fat16FindInRoot a arg [] s).1 with
    | some e => exact hwhole
    | none =>
      cases splitName arg with
      | none => exact hwhole
      | some parts => exact (findInRoot_vol _ _).trans hwhole

variable {start : Pmm} {h : Heap} {live : Set U32} {bytes : ClientBytes}

/-- `catdisk` is a good client of the heap. From every state that the heap reaches with other
clients, on any device with any content and any failures of its transfers, and for every argument:
it ends, gives back what it has taken, and leaves the bytes of the other clients as they were, if
the entry that it selects has a size which `kmalloc` can round up together with the end of the
string. -/
theorem catdisk_keeps_clients {m : Memory} {kernelEnd multibootInfoAddr : U32} {turns : ℕ}
    {boot : Pmm}
    (hinit : pmmInit m kernelEnd turns multibootInfoAddr boot = some start)
    (hrun : ClientRun start h live bytes) (a : Ata σ) (arg : Option (List U8)) (s : Fat16 σ)
    (hsize : ∀ str e, arg = some str → (commandCatdisk a str s).1 = some e →
      e.size + 1#32 ≤ maxRequest) :
    ∃ calls h' s', commandCatdiskWhole a arg h s = some (calls, h', s') ∧
      SameClients start h' live bytes := by
  have hsame : SameClients start h live bytes := ⟨bytes, hrun, fun _ _ => rfl⟩
  cases arg with
  | none => exact ⟨_, _, _, rfl, hsame⟩
  | some str =>
    have hsize' := fun e => hsize str e rfl
    unfold commandCatdisk at hsize'
    unfold commandCatdiskWhole
    dsimp only at hsize' ⊢
    by_cases hm : (mountFat16Partition a s).1 = true
    · have hv := mountFat16Partition_volume hm
      rw [← catdiskEntry_vol str] at hv
      rw [if_neg (not_not_intro hm)] at hsize' ⊢
      cases hfile : (catdiskEntry a str (mountFat16Partition a s).2).1 with
      | none => exact ⟨_, _, _, rfl, hsame⟩
      | some file =>
        obtain ⟨calls, h', s', hprint, hclients, -⟩ :=
          printFile_spec (free_ne_zero hinit) hrun hv (hsize' file hfile)
        exact ⟨calls, h', s', hprint, hclients⟩
    · rw [if_pos hm]
      exact ⟨_, _, _, rfl, hsame⟩

end

/-! ### Listings -/

section

variable {p : U32} {s : Fat16 Disk} {l : List Made} {next : ℕ} {e : Dirent} {x : FileName × Item}

/-- A shown name has no zero byte. -/
theorem cString_shownName (len : ℕ) (src : List U8) :
    cString (shownName len src) = shownName len src := by
  unfold cString
  rw [List.takeWhile_eq_self_iff]
  intro c hc
  have hmem : c ∈ cString src :=
    List.mem_of_mem_take (List.IsPrefix.mem hc (List.rdropWhile_prefix _ _))
  rw [cString] at hmem
  have hkept := List.mem_takeWhile_imp hmem
  exact hkept

/-- The line that `print_dirent` prints is that of the item. -/
theorem printDirent_text (h : Lists s l e x) :
    (printDirent e).flatMap PrintCall.printed = itemLine x := by
  obtain ⟨⟨name, ext⟩, item⟩ := x
  obtain ⟨hname, hext, hitem⟩ := h
  dsimp only at hname hext hitem
  unfold printDirent itemLine
  rw [hname, hext, cString_shownName, cString_shownName]
  cases hitem with
  | file hattr hsize hmax hdata =>
    have hfile : e.attr &&& 0x10#8 = 0#8 := by rw [hattr]; decide
    by_cases hnone : shownName 3 ext = []
    · simp [hfile, hnone, PrintCall.printed, ← hsize]
    · simp [hfile, hnone, PrintCall.printed, ← hsize]
  | directory hattr hsize hdir =>
    have hdirectory : ¬ e.attr &&& 0x10#8 = 0#8 := by rw [hattr]; decide
    by_cases hnone : shownName 3 ext = []
    · simp [hdirectory, hnone, PrintCall.printed]
    · simp [hdirectory, hnone, PrintCall.printed]

/-- The lines of '.' and '..'. -/
theorem printDirent_dots (c : U32) :
    (printDirent ⟨[0x2E#8], [], attrDirectory, c, 0#32⟩).flatMap PrintCall.printed =
        chars "  DIR   .\n" ∧
      (printDirent ⟨[0x2E#8, 0x2E#8], [], attrDirectory, c, 0#32⟩).flatMap PrintCall.printed =
        chars "  DIR   ..\n" := by
  constructor <;> simp [printDirent, cString, attrDirectory, PrintCall.printed, chars]

/-- A listing of dirents prints one line for each of the first 32. -/
theorem printListing_text {es : List Dirent} {lines : List (List U8)}
    (h : List.Forall₂ (fun e line => (printDirent e).flatMap PrintCall.printed = line) es lines) :
    (printListing ((es.length : ℤ), es.take 32)).flatMap PrintCall.printed = listText lines := by
  have hlength := h.length_eq
  unfold printListing listText
  dsimp only
  by_cases hempty : lines = []
  · subst hempty
    rw [List.length_nil] at hlength
    rw [if_pos (by omega), if_pos rfl]
    rfl
  · have hpos := List.length_pos_iff.mpr hempty
    rw [if_neg (by omega), if_neg hempty]
    have hshown : (if (es.length : ℤ) < 32 then (es.length : ℤ) else 32).toNat =
        min es.length 32 := by
      split_ifs <;> omega
    rw [hshown, List.take_take]
    have htake : es.take (min (min es.length 32) 32) = es.take 32 := by
      rw [Nat.min_assoc, Nat.min_self, List.take_eq_take_iff]
      omega
    rw [htake]
    have hlines := List.forall₂_take 32 h
    generalize es.take 32 = es' at hlines ⊢
    generalize lines.take 32 = lines' at hlines ⊢
    induction hlines with
    | nil => rfl
    | cons hline _ ih => rw [List.flatMap_cons, List.flatMap_append, hline, ih, List.flatten_cons]

end

/-! ### The text of a file -/

/-- The text is what `catdisk` shows of the tree, or a file that is not empty had no room in the
heap. -/
def CatShows (t : FileTree) (arg : Option (List U8)) (text : List U8) : Prop :=
  text = t.catText arg ∨ ∃ str content, arg = some str ∧ t.path str = some content ∧ content ≠ [] ∧
    text = chars "Out of heap memory.\n"

section

variable {start : Pmm} {h : Heap} {live : Set U32} {bytes : ClientBytes} {p : U32}
  {s s₁ : Fat16 Disk} {l : List Made} {next : ℕ} {e : Dirent} {item : Item}

/-- Reading a file leaves the disk. -/
theorem fat16ReadFile_dev {first size bufferSize : U32} {buffer : U32 → U8}
    {r : (Bool × (U32 → U8)) × Fat16 Disk}
    (hr : fat16ReadFile disk first size buffer bufferSize s = some r) : r.2.dev = s.dev := by
  have hclusters {turns : ℕ} {cluster offset remaining : U32} {buffer : U32 → U8} {s : Fat16 Disk}
      (hr : readClusters disk bufferSize turns cluster offset remaining buffer s = some r) :
      r.2.dev = s.dev := by
    induction turns generalizing cluster offset remaining buffer s with
    | zero => simp [readClusters] at hr
    | succ turns ih =>
      have hdata : (readClusterData disk (clusterToLba s.vol cluster) offset
          (thisChunk s.vol remaining) bufferSize s.vol.sectorsPerCluster.toNat 0#32 0#32 buffer
          s.dev).2 = s.dev := readClusterData_kept disk_readsContent
      have hentry (s : Fat16 Disk) : (fatReadEntry disk cluster s).2.dev = s.dev := rfl
      unfold readClusters at hr
      dsimp only at hr
      rw [hdata] at hr
      by_cases hmore : 0#32 < remaining
      · rw [if_pos hmore] at hr
        split_ifs at hr with hread hlast hend
        · obtain rfl := Option.some.inj hr
          rfl
        · obtain rfl := Option.some.inj hr
          rfl
        · exact (ih hr).trans (hentry _)
        · obtain rfl := Option.some.inj hr
          rfl
      · rw [if_neg hmore] at hr
        obtain rfl := Option.some.inj hr
        rfl
  unfold fat16ReadFile at hr
  split_ifs at hr
  · obtain rfl := Option.some.inj hr
    rfl
  · exact hclusters hr
  · obtain rfl := Option.some.inj hr
    rfl

/-- What `catdisk` prints of an entry that shows an item. -/
theorem printFile_text (hpos : ∀ q, start.Free q → q ≠ 0#32)
    (hrun : ClientRun start h live bytes) (hv : MountedVolume s.vol) (hshows : Shows s l e item) :
    ∃ calls h' s', printFile disk e h s = some (calls, h', s') ∧ s'.dev = s.dev ∧
      SameClients start h' live bytes ∧
      (calls.flatMap PrintCall.printed =
          (if item.content = [] then chars "(empty file)\n"
            else cString item.content ++ chars "\n") ∨
        item.content ≠ [] ∧ calls.flatMap PrintCall.printed = chars "Out of heap memory.\n") := by
  have hmax : e.size + 1#32 ≤ maxRequest := by
    unfold maxRequest
    cases hshows with
    | file hattr hsize hmax hdata => bv_omega
    | directory hattr hsize hdir => rw [hsize]; decide
  obtain ⟨calls, h', s', hprint, hclients, hcases⟩ := printFile_spec (a := disk) hpos hrun hv hmax
  refine ⟨calls, h', s', hprint, ?_, hclients, ?_⟩
  · rcases hcases with ⟨-, -, rfl⟩ | ⟨-, ptr, h₁, -, ⟨-, -, rfl⟩ | ⟨-, r, hr, rfl, -⟩⟩
    · rfl
    · rfl
    · exact fat16ReadFile_dev hr
  · cases hshows with
    | directory hattr hsize hdir =>
      rcases hcases with ⟨-, rfl, -⟩ | ⟨hne, -⟩
      · exact .inl rfl
      · exact absurd hsize hne
    | @file content hattr hsize hmax hdata =>
      have hempty : content = [] ↔ e.size = 0#32 := by
        rw [← List.length_eq_zero_iff, ← hsize]
        bv_omega
      change (_ = if content = [] then _ else cString content ++ _) ∨ content ≠ [] ∧ _
      rcases hcases with ⟨hzero, rfl, -⟩ | ⟨hne, ptr, h₁, -, ⟨-, rfl, -⟩ | ⟨-, r, hr, -, rfl⟩⟩
      · rw [if_pos (hempty.mpr hzero)]
        exact .inl rfl
      · exact .inr ⟨mt hempty.mp hne, rfl⟩
      · rw [if_neg (mt hempty.mp hne)]
        obtain ⟨r', hr', hok, hread⟩ := hdata (bufferAt h₁.mem ptr) e.size le_rfl
        obtain rfl := Option.some.inj (hr.symm.trans hr')
        have hcontent : ((List.range e.size.toNat).map fun i => r.1.2 (BitVec.ofNat 32 i)) =
            content := by
          apply List.ext_getElem
          · simpa using hsize
          · intro i hi hi'
            have hlt : i < e.size.toNat := by omega
            have hi32 : (BitVec.ofNat 32 i).toNat = i := by bv_omega
            rw [List.getElem_map, List.getElem_range, hread, hi32, if_pos hlt]
            dsimp only
            rw [hi32, List.getD_eq_getElem _ _ hi']
        rw [hok, if_pos rfl, hcontent]
        exact .inl rfl

/-- `catdisk` shows the tree of the volume that is mounted. -/
theorem catdisk_tree (hpos : ∀ q, start.Free q → q ≠ 0#32) (hrun : ClientRun start h live bytes)
    (hmount : mountFat16Partition disk s = (true, s₁)) (hstores : Stores p s₁.dev next l)
    (hm : MountedAt p s₁) (hnext : next ≤ 0xFFF8) (hdev : s₁.dev = s.dev) (arg : Option (List U8)) :
    ∃ calls h' s', commandCatdiskWhole disk arg h s = some (calls, h', s') ∧ s'.dev = s.dev ∧
      SameClients start h' live bytes ∧
      CatShows (treeOf (l.map Made.report)) arg (calls.flatMap PrintCall.printed) := by
  have hsame : SameClients start h live bytes := ⟨bytes, hrun, fun _ _ => rfl⟩
  cases arg with
  | none => exact ⟨_, _, _, rfl, rfl, hsame, .inl rfl⟩
  | some str =>
    have hv : MountedVolume s₁.vol := by
      rw [hm.vol]
      exact formattedVolume_mounted p
    unfold commandCatdiskWhole
    simp only [hmount, not_true, if_false]
    rcases catdiskEntry_tree hstores hm hnext str with
      ⟨hentry, hpath⟩ | ⟨e, item, hentry, hshows, hpath⟩
    · rw [hentry]
      refine ⟨_, _, _, rfl, hdev, hsame, .inl ?_⟩
      simp only [FileTree.catText, hpath]
      rfl
    · rw [hentry]
      obtain ⟨calls, h', s', hprint, hdev', hclients, htext⟩ := printFile_text hpos hrun hv hshows
      refine ⟨calls, h', s', hprint, hdev'.trans hdev, hclients, ?_⟩
      rcases htext with htext | ⟨hne, htext⟩
      · refine .inl (htext.trans ?_)
        simp only [FileTree.catText, hpath]
      · exact .inr ⟨str, item.content, rfl, hpath, hne, htext⟩

/-- Listing a directory of a mounted volume. -/
theorem list_eq (dir : Dir) (hm : s.mounted = true) : dir.list disk 32 s =
    (((((dir.entries s.vol s.dev).map fillDirent).length : ℤ),
      ((dir.entries s.vol s.dev).map fillDirent).take 32), s) := by
  have hlist : (dir.list disk 32 s).1 = _ := Dir.list_disk hm
  have hkept : (dir.list disk 32 s).2 = s := by
    cases dir with
    | root => rw [Dir.list, fat16ListRoot_disk hm]
    | cluster c => rw [Dir.list, fat16ListDir_disk hm]
  refine Prod.ext (hlist.trans ?_) hkept
  rw [List.length_map, ← List.map_take]
  rfl

/-- `lsdisk` shows it too. -/
theorem lsdisk_tree (hmount : mountFat16Partition disk s = (true, s₁))
    (hstores : Stores p s₁.dev next l) (hm : MountedAt p s₁) (hnext : next ≤ 0xFFF8)
    (hdev : s₁.dev = s.dev) (arg : Option (List U8)) :
    (commandLsdisk disk arg s).1.flatMap PrintCall.printed =
        FileTree.lsText (treeOf (l.map Made.report)) arg ∧
      (commandLsdisk disk arg s).2.dev = s.dev := by
  have hlines {es : List Dirent} {items : FileTree} (hlists : List.Forall₂ (Lists s₁ l) es items) :
      List.Forall₂ (fun e line => (printDirent e).flatMap PrintCall.printed = line) es
        (items.map itemLine) := by
    rw [List.forall₂_map_right_iff]
    exact hlists.imp fun _ _ => printDirent_text
  have hroot := list_eq .root hm.mounted
  have hdirectory (c : U32) := list_eq (.cluster c) hm.mounted
  simp only [Dir.list] at hroot hdirectory
  unfold commandLsdisk FileTree.lsText
  simp only [hmount, not_true, if_false]
  cases arg with
  | none =>
    simp only [hroot]
    exact ⟨printListing_text (hlines (root_entries_tree hstores hm hnext)), hdev⟩
  | some str =>
    rcases findInRoot_tree hstores hm hnext str [] with
      ⟨hfind, hitem⟩ | ⟨e, item, hfind, hitem, hshows⟩
    · simp only [hfind, hitem]
      exact ⟨by simp [PrintCall.printed], hdev⟩
    · simp only [hfind, hitem]
      cases hshows with
      | file hattr hsize hmax hdata =>
        have hfile : e.attr &&& 0x10#8 = 0#8 := by rw [hattr]; decide
        simp only [hfile, if_true]
        exact ⟨by simp [PrintCall.printed], hdev⟩
      | directory hattr hsize hdir =>
        have hisdir : ¬ e.attr &&& 0x10#8 = 0#8 := by rw [hattr]; decide
        obtain ⟨es, hes, hlists⟩ := dir_entries_tree hstores hm hnext hdir
        simp only [hisdir, if_false, hdirectory, hes]
        refine ⟨printListing_text (.cons (printDirent_dots _).1 (.cons (printDirent_dots _).2 ?_)),
          hdev⟩
        have hfiles := hlines hlists
        rwa [List.map_map] at hfiles

end

end AlderKernel.Shell
