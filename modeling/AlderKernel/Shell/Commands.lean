import AlderKernel.Shell.DiskCommands
import AlderKernel.Shell.Interpreter
import AlderKernel.Shell.RamFiles
import AlderKernel.Shell.Syscalls

/-!
# The commands of the shell on one kernel

What `interpret_command` calls, on the heap, the file system in memory and the drive together. Over
it, what a user has to know to tell what a session shows: the current path, the tree in memory and
the tree on the disk.
-/

namespace AlderKernel.Shell

open Machine Drivers Mm Fs

/-- The file system in memory, with the heap, and the mounted volume, with the drive. -/
structure Kernel (σ : Type) where
  vfs : Vfs
  fat : Fat16 σ

/-- An argument, as a string. -/
def stringOf (arg : List U8) : Str :=
  ⟨cString arg, fun h => by simpa using List.mem_takeWhile_imp h⟩

/-! ### The commands that are not modelled elsewhere -/

/-- The text of `command_help`. -/
def helpText : List U8 :=
  chars "Available commands:\n" ++
  chars "help                       - show this list\n" ++
  chars "clear                      - clear the screen\n" ++
  chars "about                      - information about AlderKernel\n" ++
  chars "echo <text>                - print text\n" ++
  chars "uname [-a|-s|-r|-m]        - show system info\n" ++
  chars "req-syscallop <number>     - request a syscall operation (stub)\n" ++
  chars "memtest                    - run a simple memory test\n" ++
  chars "meminfo                    - show physical + heap memory stats\n" ++
  chars "ls [path]                  - list a directory\n" ++
  chars "cd [path]                  - change directory\n" ++
  chars "pwd                        - print working directory\n" ++
  chars "cat <file>                 - print a file's contents\n" ++
  chars "halt                       - stop the CPU\n" ++
  chars "loop <command>             - repeat a command at max speed until a key is pressed\n" ++
  chars "diskinfo                   - probe primary ATA disk and dump MBR\n" ++
  chars "partinfo                   - list MBR partition table entries\n" ++
  chars "runelf <file>              " ++
  chars "- load and run a trusted ELF32 binary (ring 0, no isolation)\n" ++
  chars "\nPress Up/Down to recall previous commands.\n"

/-- The text of `command_about`. -/
def aboutText : List U8 :=
  chars "AlderKernel\nA small hobby operating system kernel.\nShell: zSlash\n" ++
  chars "Made by loren-wastaken\n"

/-- `command_uname`. -/
def commandUname (option : Option (List U8)) : List PrintCall :=
  match option with
  | none => [.text (chars "AlderKernel\n")]
  | some option =>
    if strcmp option (chars "-s") = 0 then [.text (chars "AlderKernel\n")]
    else if strcmp option (chars "-r") = 0 then [.text (chars "0.3\n")]
    else if strcmp option (chars "-m") = 0 then [.text (chars "i386\n")]
    else if strcmp option (chars "-a") = 0 then [.text (chars "AlderKernel 0.3 i386 zSlash\n")]
    else [.text (chars "uname: unrecognized option: "), .text option, .text (chars "\n")]

/-- `command_meminfo`. -/
def commandMeminfo (h : Heap) : List PrintCall :=
  [.text (chars "Physical memory: "), .uint h.pmm.freePagesCount, .text (chars " / "),
    .uint maxPages, .text (chars " pages free ("), .uint (h.pmm.freePagesCount * 4#32),
    .text (chars " KB)\n"), .text (chars "Heap: "), .uint h.freeBytes,
    .text (chars " bytes free, "), .uint h.usedBytes, .text (chars " bytes used\n")]

section

variable {σ : Type}

/-- `command_diskinfo`. -/
def commandDiskinfo (a : Drive σ) (s : Fat16 σ) : List PrintCall × Fat16 σ :=
  let probing := PrintCall.text (chars "Probing primary ATA bus (master)...\n")
  let drive := a.identify s.dev
  if ¬ drive.1 then
    ([probing, .text (chars "No drive detected.\n")], { s with dev := drive.2 }) else
  let detected := PrintCall.text (chars "Drive detected. Reading sector 0 (MBR)...\n")
  let read := a.readSector 0#32 drive.2
  let sector := read.1.2
  let s := { s with dev := read.2 }
  if ¬ read.1.1 then ([probing, detected, .text (chars "Read failed.\n")], s) else
  ([probing, detected, .text (chars "First 16 bytes: ")] ++
    ((List.range 16).flatMap fun i =>
      [PrintCall.hex ((sector.byte i).setWidth 32), .text (chars " ")]) ++
    [.text (chars "\n"), .text (chars "Boot signature (should be 0xAA55 at offset 510): "),
      .hex ((sector.byte 510).setWidth 32 ||| (sector.byte 511).setWidth 32 <<< 8),
      .text (chars "\n")], s)

/-- A line of `command_partinfo`. -/
def partitionCalls (i : Fin 4) (part : MbrPartition) : List PrintCall :=
  if part.type = 0#8 then [] else
  [.text (chars "Partition "), .uint (BitVec.ofNat 32 i), .text (chars ": type="),
    .hex (part.type.setWidth 32), .text (chars " bootable="), .uint (part.bootable.setWidth 32),
    .text (chars " start_lba="), .uint part.lbaStart, .text (chars " sectors="),
    .uint part.sectorCount, .text (chars "\n")]

/-- `command_partinfo`. -/
def commandPartinfo (a : Ata σ) (s : Fat16 σ) : List PrintCall × Fat16 σ :=
  let parts := mbrReadPartitions a s.dev
  let s := { s with dev := parts.2 }
  if parts.1.1 = 0 then
    ([.text (chars "No valid MBR found (disk is unpartitioned).\n")], s) else
  ((List.finRange 4).flatMap fun i => partitionCalls i (parts.1.2 i), s)

/-! ### All commands -/

/-- A command of `fs_commands.c` on the kernel. -/
def runFs (cmd : FsCommand) (k : Kernel σ) : Option (List PrintCall × Kernel σ) :=
  (cmd.run k.vfs).map fun r => ([.text r.2], { k with vfs := r.1 })

/-- A command that works on the volume, on the kernel. -/
def runFat (command : Fat16 σ → List PrintCall × Fat16 σ) (k : Kernel σ) :
    List PrintCall × Kernel σ :=
  ((command k.fat).1, { k with fat := (command k.fat).2 })

/-- What a command of `interpret_command` prints, and the kernel after it. There is no result for a
command that does not return. `clear`, `memtest`, `loop` and `runelf`, which do more than print and
work on this kernel, have none here either. -/
def runCommand (a : Drive σ) (k : Kernel σ) : ShellCommand → Option (List PrintCall × Kernel σ)
  | .help => some ([.text helpText], k)
  | .about => some ([.text aboutText], k)
  | .echo args => some ([.text args, .text (chars "\n")], k)
  | .uname option => some (commandUname option, k)
  | .reqSyscallop arg =>
    (commandReqSyscallop arg k.vfs.heap).heap.map fun heap =>
      ((commandReqSyscallop arg k.vfs.heap).calls, { k with vfs := { k.vfs with heap := heap } })
  | .ls arg => runFs (.ls (arg.map stringOf)) k
  | .cd arg => runFs (.cd (arg.map stringOf)) k
  | .pwd => runFs .pwd k
  | .cat arg => runFs (.cat (arg.map stringOf)) k
  | .meminfo => some (commandMeminfo k.vfs.heap, k)
  | .diskinfo => some (runFat (commandDiskinfo a) k)
  | .partinfo => some (runFat (commandPartinfo a.toAta) k)
  | .mkpart => some (runFat (commandMkpart a) k)
  | .mkfs => some (runFat (commandMkfs a.toAta) k)
  | .install => (commandInstall a k.fat).map fun r => (r.1, { k with fat := r.2 })
  | .lsdisk arg => some (runFat (commandLsdisk a.toAta arg) k)
  | .catdisk arg => (commandCatdiskWhole a.toAta arg k.vfs.heap k.fat).map fun r =>
    (r.1, { k with vfs := { k.vfs with heap := r.2.1 }, fat := r.2.2 })
  | .unknown input =>
    some ([.text (chars "Unknown command: "), .text input, .text (chars "\n")], k)
  | .clear | .halt | .memtest | .loop _ | .runelf _ => none

end

/-- The commands that return, and do no more than print and work on the kernel. -/
def ShellCommand.Plain : ShellCommand → Prop
  | .clear | .halt | .memtest | .loop _ | .runelf _ => False
  | .reqSyscallop (some arg) => strToUint arg ≠ 0x10#32 ∧ strToUint arg ≠ 0x11#32
  | _ => True

end AlderKernel.Shell
