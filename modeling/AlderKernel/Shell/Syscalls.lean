import AlderKernel.Idt.ExceptionStubs
import AlderKernel.Mm.Heap
import AlderKernel.Shell.Numbers
import AlderKernel.Shell.ScreenPage

/-!
# Syscalls from the shell

`kernel/syscalls/syscall.c`, and `req-syscallop` of `kernel/shell/sysinfo_commands.c`, which calls a
syscall by its number. Two of them halt the processor.
-/

namespace AlderKernel.Shell

open Machine Drivers Mm

/-- What a call prints, and the heap with which it returns, if it returns. -/
structure Effect where
  calls : List PrintCall
  heap : Option Heap

/-- A call that prints and returns. -/
def Effect.prints (calls : List PrintCall) (s : Heap) : Effect := ⟨calls, some s⟩

/-- A call behind something that is printed first. -/
def Effect.after (calls : List PrintCall) (e : Effect) : Effect :=
  { e with calls := calls ++ e.calls }

/-- The text that is printed. -/
def Effect.text (e : Effect) : List U8 := e.calls.flatMap PrintCall.printed

/-- A call that prints and halts the processor. -/
def Effect.halts (calls : List PrintCall) : Effect := ⟨calls, none⟩

/-- `sys_panic`. -/
def sysPanic : Effect := .halts [.text (chars "\n*** KERNEL PANIC (syscall 0x10) ***\n")]

/-- `sys_test_divzero`. The division raises exception 0, whose stub pushes 0 as the error code. -/
def sysTestDivzero : Effect :=
  (Effect.halts (Idt.isrExceptionHandler 0#32 0#32)).after
    [.text (chars "Forcing a real divide-by-zero (#DE, vector 0)...\n")]

/-- `SYSCALL_TEST_ALLOC_SIZE`. -/
def syscallTestAllocSize : U32 := 128#32

/-- `sys_request_ram`. It does not return when the search of `kmalloc` does not end. -/
def sysRequestRam (s : Heap) : Effect :=
  match kmalloc syscallTestAllocSize s with
  | none => ⟨[], none⟩
  | some (ptr, s) =>
    if ptr = 0#32 then
      .prints [.text (chars "sys_request_ram: kmalloc failed - out of heap memory.\n")] s
    else
      .prints [.text (chars "sys_request_ram: allocated "), .uint syscallTestAllocSize,
        .text (chars " bytes at "), .hex ptr, .text (chars "\nheap now: "), .uint s.freeBytes,
        .text (chars " bytes free, "), .uint s.usedBytes, .text (chars " bytes used\n")] s

/-- `syscall_dispatch`. -/
def syscallDispatch (num : U32) (s : Heap) : Effect :=
  if num = 0x00#32 then
    .prints [.text (chars "sys_read: not implemented yet (no VFS-backed reads).\n")] s
  else if num = 0x01#32 then
    .prints [.text (chars "sys_write: not implemented yet (no VFS-backed writes).\n")] s
  else if num = 0x02#32 then sysRequestRam s
  else if num = 0x03#32 then
    .prints [.text (chars "syscall 0x03: reserved, not defined yet.\n")] s
  else if num = 0x10#32 then sysPanic
  else if num = 0x11#32 then sysTestDivzero
  else .prints [.text (chars "Unknown syscall number: "), .uint num, .text (chars "\n")] s

/-- What `req-syscallop` prints before it calls the syscall. -/
def requested (num : U32) : List PrintCall :=
  [.text (chars "Syscall requested: #"), .uint num, .text (chars "\n")]

/-- `command_req_syscallop`. -/
def commandReqSyscallop (arg : Option (List U8)) (s : Heap) : Effect :=
  match arg with
  | none => .prints [.text (chars "Usage: req-syscallop <syscall number>\n")] s
  | some arg => (syscallDispatch (strToUint arg) s).after (requested (strToUint arg))

/-- The syscall table of `syscalls.md`. -/
def syscallTable : List ℕ := [0, 1, 2, 3, 16, 17]

/-- The number that is typed: the one the digits at the beginning of the argument denote. -/
def typedNumber (arg : List U8) : ℕ := valueOf (digitRun arg)

/-- The heap before it is set up. -/
def zeroHeap : Heap := ⟨⟨fun _ => 0#8⟩, ⟨fun _ => 0#8, 0#32⟩, 0#32, 0#32, 0#32⟩

/-- The command announces a syscall and dispatches it. -/
def Dispatches (arg : List U8) (num : U32) : Prop :=
  ∀ s, commandReqSyscallop (some arg) s = (syscallDispatch num s).after (requested num)

/-- The number that is typed is printed as unknown, and the command returns. -/
def ReportsUnknown (arg : List U8) : Prop :=
  ∀ s, (commandReqSyscallop (some arg) s).heap = some s ∧
    (commandReqSyscallop (some arg) s).text =
      chars "Syscall requested: #" ++ decimalText (typedNumber arg) ++ chars "\n" ++
        (chars "Unknown syscall number: " ++ decimalText (typedNumber arg) ++ chars "\n")

/-- Only the number that was typed is dispatched, and one outside of the table is reported. -/
def FollowsTyped (arg : List U8) : Prop :=
  (∀ num, Dispatches arg num → num.toNat = typedNumber arg) ∧
    (typedNumber arg ∉ syscallTable → ReportsUnknown arg)

section

variable {arg : List U8} {num : U32}

/-- One number is dispatched, the one that `str_to_uint` makes of the argument. -/
theorem dispatches_iff : Dispatches arg num ↔ num = strToUint arg := by
  constructor
  · intro h
    have hcalls := congrArg Effect.calls (h zeroHeap)
    have huint := congrArg (fun calls => calls[1]?) hcalls
    have hsame : PrintCall.uint (strToUint arg) = .uint num := Option.some.inj huint
    exact (PrintCall.uint.inj hsame).symm
  · rintro rfl s
    rfl

/-- A number outside of the table is unknown. -/
theorem syscallDispatch_unknown (h : num.toNat ∉ syscallTable) (s : Heap) :
    syscallDispatch num s =
      .prints [.text (chars "Unknown syscall number: "), .uint num, .text (chars "\n")] s := by
  have hne (k : U32) (hk : k.toNat ∈ syscallTable) : num ≠ k := fun heq => h (heq ▸ hk)
  unfold syscallDispatch
  rw [if_neg (hne _ (by decide)), if_neg (hne _ (by decide)), if_neg (hne _ (by decide)),
    if_neg (hne _ (by decide)), if_neg (hne _ (by decide)), if_neg (hne _ (by decide))]

/-- `req-syscallop` dispatches the number that was typed. For every argument, the syscall that is
dispatched is the one that the digits at its beginning denote, and a number outside of the table is
reported as unknown without halting, if and only if the digits denote less than `2 ^ 32`. -/
theorem reqSyscallop_typed_iff (arg : List U8) : FollowsTyped arg ↔ typedNumber arg < 2 ^ 32 := by
  have hread : (strToUint arg).toNat = typedNumber arg % 2 ^ 32 := strToUint_toNat arg
  constructor
  · rintro ⟨htyped, -⟩
    rw [← htyped _ (dispatches_iff.mpr rfl)]
    exact (strToUint arg).isLt
  · intro hlt
    rw [Nat.mod_eq_of_lt hlt] at hread
    refine ⟨fun num hnum => ?_, fun hunknown s => ?_⟩
    · rw [dispatches_iff.mp hnum, hread]
    · have hrun : commandReqSyscallop (some arg) s = _ := dispatches_iff.mpr rfl s
      rw [hrun, syscallDispatch_unknown (hread ▸ hunknown)]
      refine ⟨rfl, ?_⟩
      simp [Effect.text, Effect.after, Effect.prints, requested, PrintCall.printed, hread]

/-- The number 2 ^ 32 + 16 is read as 16 and halts the machine. -/
theorem largeNumber_halts : ¬ FollowsTyped (chars "4294967312") := by
  have hread : strToUint (chars "4294967312") = 0x10#32 := by decide
  have htyped : typedNumber (chars "4294967312") ∉ syscallTable := by decide
  rintro ⟨-, hunknown⟩
  obtain ⟨hreturns, -⟩ := hunknown htyped zeroHeap
  have hrun : commandReqSyscallop (some (chars "4294967312")) zeroHeap = _ :=
    dispatches_iff.mpr rfl zeroHeap
  have hhalts : ((syscallDispatch 0x10#32 zeroHeap).after (requested 0x10#32)).heap = none := by
    simp [syscallDispatch, sysPanic, Effect.halts, Effect.after]
  rw [hrun, hread, hhalts] at hreturns
  exact (Option.some_ne_none zeroHeap).symm hreturns

end

end AlderKernel.Shell
