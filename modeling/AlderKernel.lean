import AlderKernel.Machine.Memory
import AlderKernel.Machine.Words
import AlderKernel.Machine.Buffer
import AlderKernel.Machine.I386
import AlderKernel.Order.Segments
import AlderKernel.Order.SlotTable
import AlderKernel.Order.Ring
import AlderKernel.Order.Page
import AlderKernel.Drivers.KeyRuns
import AlderKernel.Drivers.ShiftKeys
import AlderKernel.Drivers.CapsLock
import AlderKernel.Drivers.Ata
import AlderKernel.Shell.EditorRuns
import AlderKernel.Shell.Browsing
import AlderKernel.Shell.History
import AlderKernel.Shell.ScreenRuns
import AlderKernel.Shell.ScreenPage
import AlderKernel.Idt.KeyboardStub
import AlderKernel.Elf.Loader
import AlderKernel.Elf.Image
import AlderKernel.Elf.Execution
import AlderKernel.Elf.Table
import AlderKernel.Elf.Correctness
import AlderKernel.Mm.PageRuns
import AlderKernel.Mm.UsablePages
import AlderKernel.Mm.HeapRuns
import AlderKernel.Mm.FreeBytes
import AlderKernel.Mm.Coalescing
import AlderKernel.Mm.FreeAll
import AlderKernel.Mm.ByteConservation
import AlderKernel.Mm.AllocSizes
import AlderKernel.Mm.AllocFree
import AlderKernel.Mm.HiddenRuns
import AlderKernel.Mm.MapBounds
import AlderKernel.Mm.Paging
import AlderKernel.Fs.Mbr
import AlderKernel.Fs.Files
import AlderKernel.Fs.FailedCalls
import AlderKernel.Fs.Format
import AlderKernel.Fs.Layout
import AlderKernel.Fs.SafeVolumes
import AlderKernel.Fs.DiskErrors
import AlderKernel.Fs.MountErrors
import AlderKernel.Fs.ReadFile
import AlderKernel.Fs.ReadBounds
import AlderKernel.Fs.PartitionBounds
import AlderKernel.Fs.EntryChains
import AlderKernel.Fs.EntryFields
import AlderKernel.Fs.ReadBack
import AlderKernel.Shell.SysinfoCommands
import AlderKernel.Shell.Syscalls
import AlderKernel.Shell.DiskPaths
import AlderKernel.Shell.FsRuns
import AlderKernel.Fs.FatArray
import AlderKernel.Shell.TextColor
import AlderKernel.Shell.NumberText
import AlderKernel.Machine.Interrupts
import AlderKernel.Machine.InterruptController
import AlderKernel.Idt.Gates
import AlderKernel.Idt.ExceptionStubs
import AlderKernel.Interrupts.Pic
import AlderKernel.Shell.Interpreter
import AlderKernel.Shell.LineEditor
import AlderKernel.Shell.Typing
import AlderKernel.Fs.DeviceMaps
import AlderKernel.Shell.PortDisk
import AlderKernel.Mm.ClientData
import AlderKernel.Shell.FileTree
import AlderKernel.Shell.FilePrinting
import AlderKernel.Shell.DiskCommands
import AlderKernel.Shell.RamFiles
import AlderKernel.Shell.Commands
import AlderKernel.Shell.Sessions
import AlderKernel.Shell.TypedSessions
