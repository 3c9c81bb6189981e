import AlderKernel.Machine.Memory

/-!
# The keyboard driver

`kernel/drivers/ps2.c`: the keyboard interrupt turns scancodes into characters and pushes
them into a ring buffer, from which the shell pops them. The interrupt may come between
any two memory accesses of `key_buffer_pop`, so that function is also given access by access.
-/

namespace AlderKernel.Drivers

open Machine

/-- The codes of a string's characters. -/
def chars (s : String) : List U8 := s.toList.map fun c => BitVec.ofNat 8 c.toNat

/-- The initialisers of `scancode_to_ascii`, up to the last key that is mapped. -/
def scancodeToAscii : List U8 :=
  [0#8, 27#8] ++ chars "1234567890-=\x08\tqwertyuiop[]\n" ++
  [0#8] ++ chars "asdfghjkl;\x27\x60" ++
  [0#8] ++ chars "\\zxcvbnm,./" ++
  [0#8] ++ chars "*" ++ [0#8] ++ chars " "

/-- The initialisers of `scancode_to_ascii_shifted`, up to the last key that is mapped. -/
def scancodeToAsciiShifted : List U8 :=
  [0#8, 27#8] ++ chars "!@#$%^&*()_+\x08\tQWERTYUIOP\x7b\x7d\n" ++
  [0#8] ++ chars "ASDFGHJKL:\x22~" ++
  [0#8] ++ chars "|ZXCVBNM<>?" ++
  [0#8] ++ chars "*" ++ [0#8] ++ chars " "

/-- `KEY_BUFFER_SIZE`. -/
def keyBufferSize : U32 := 256#32

/-- `KEY_ARROW_UP`. -/
def keyArrowUp : U8 := 0x01#8

/-- `KEY_ARROW_DOWN`. -/
def keyArrowDown : U8 := 0x02#8

/-- The ring buffer for key presses. Its slots are read and written below `KEY_BUFFER_SIZE` only. -/
structure KeyBuffer where
  /-- `key_buffer`. -/
  slots : U32 → U8
  /-- `key_buf_head`, the next index to write. -/
  head : U32
  /-- `key_buf_tail`, the next index to read. -/
  tail : U32

/-- The ring buffer before the first key press. -/
def KeyBuffer.empty : KeyBuffer := ⟨fun _ => 0#8, 0#32, 0#32⟩

/-- The test of `key_buffer_push` for a full buffer. -/
def KeyBuffer.Full (k : KeyBuffer) : Prop := (k.head + 1#32) % keyBufferSize = k.tail

instance (k : KeyBuffer) : Decidable k.Full := inferInstanceAs (Decidable (_ = _))

/-- `key_buffer_push`. -/
def keyBufferPush (c : U8) (k : KeyBuffer) : KeyBuffer :=
  if k.Full then k else
  ⟨fun i => if i = k.head then c else k.slots i, (k.head + 1#32) % keyBufferSize, k.tail⟩

/-- `key_buffer_pop`: the next key press, or 0, when no interrupt comes in between. -/
def keyBufferPop (k : KeyBuffer) : U8 × KeyBuffer :=
  if k.tail = k.head then (0#8, k) else
  (k.slots k.tail, { k with tail := (k.tail + 1#32) % keyBufferSize })

/-- Where `key_buffer_pop` is between two of its memory accesses, with the values that it has
read. -/
inductive PopPoint
  /-- Outside of `key_buffer_pop`, or in front of its first access. -/
  | outside
  /-- The comparison has read the tail. -/
  | haveTail (tail : U32)
  /-- The comparison has read the head, before the tail. -/
  | haveHead (head : U32)
  /-- The indices differed. -/
  | compared
  /-- The index of the slot to read. -/
  | haveIndex (tail : U32)
  /-- The character, before the tail is read once more. -/
  | haveChar (c : U8)
  /-- The character and the tail to advance. -/
  | haveNext (c : U8) (tail : U32)

/-- What can be seen of a run: characters that `key_buffer_push` accepts or drops, the comparison's
read of the head, and values that `key_buffer_pop` returns. -/
inductive KeyEvent
  | accepted (c : U8)
  | dropped (c : U8)
  | readHead
  | returned (c : U8)
  deriving DecidableEq

/-- One memory access of `key_buffer_pop`. C leaves open which of the two indices the comparison
reads first. -/
def popAccess (headFirst : Bool) (k : KeyBuffer) :
    PopPoint → KeyBuffer × PopPoint × List KeyEvent
  | .outside =>
    if headFirst then (k, .haveHead k.head, [.readHead]) else (k, .haveTail k.tail, [])
  | .haveTail tail =>
    if tail = k.head then (k, .outside, [.readHead, .returned 0#8])
    else (k, .compared, [.readHead])
  | .haveHead head =>
    if k.tail = head then (k, .outside, [.returned 0#8]) else (k, .compared, [])
  | .compared => (k, .haveIndex k.tail, [])
  | .haveIndex tail => (k, .haveChar (k.slots tail), [])
  | .haveChar c => (k, .haveNext c k.tail, [])
  | .haveNext c tail =>
    ({ k with tail := (tail + 1#32) % keyBufferSize }, .outside, [.returned c])

/-- The modifier state of `ps2.c`. -/
structure Modifiers where
  /-- `extended_prefix`. -/
  extendedPrefix : Bool
  /-- `shift_held`. -/
  shiftHeld : Bool
  /-- `capslock_on`. -/
  capslockOn : Bool
  deriving DecidableEq

/-- The static variables of `ps2.c`. -/
structure Keyboard where
  modifiers : Modifiers
  buffer : KeyBuffer

/-- The modifiers before the first key press. -/
def Modifiers.initial : Modifiers := ⟨false, false, false⟩

/-- The end of `keyboard_handler`: the character of a key that is no modifier. -/
def keyChar (code : U8) (m : Modifiers) : U8 :=
  let base := scancodeToAscii.getD code.toNat 0#8
  let shifted := scancodeToAsciiShifted.getD code.toNat 0#8
  if 97#8 ≤ base ∧ base ≤ 122#8 then
    if m.shiftHeld ^^ m.capslockOn then shifted else base
  else
    if m.shiftHeld then shifted else base

/-- `keyboard_handler` with the byte that it reads from the controller: the modifiers after it,
and the character that it pushes, if any. Each push is the last thing that it does. -/
def handleScancode (scancode : U8) (m : Modifiers) : Modifiers × Option U8 :=
  if scancode = 0xE0#8 then ({ m with extendedPrefix := true }, none) else
  let isExtended := m.extendedPrefix
  let m := { m with extendedPrefix := false }
  let isRelease : Bool := scancode &&& 0x80#8 ≠ 0#8
  let code := scancode &&& 0x7F#8
  if isExtended then
    if isRelease then (m, none)
    else if code = 0x48#8 then (m, some keyArrowUp)
    else if code = 0x50#8 then (m, some keyArrowDown)
    else (m, none)
  else if code = 0x2A#8 ∨ code = 0x36#8 then ({ m with shiftHeld := !isRelease }, none)
  else if code = 0x3A#8 then
    (if isRelease then m else { m with capslockOn := !m.capslockOn }, none)
  else if isRelease then (m, none)
  else
    let c := keyChar code m
    if c ≠ 0#8 then (m, some c) else (m, none)

/-- `keyboard_handler`. -/
def keyboardHandler (scancode : U8) (s : Keyboard) : Keyboard :=
  let r := handleScancode scancode s.modifiers
  ⟨r.1, r.2.elim s.buffer fun c => keyBufferPush c s.buffer⟩

/-- Without interrupts the accesses of `key_buffer_pop` do what the function does. -/
theorem popAccess_pop (headFirst : Bool) (k : KeyBuffer) :
    let step (s : KeyBuffer × PopPoint × List KeyEvent) :=
      let r := popAccess headFirst s.1 s.2.1
      (r.1, r.2.1, s.2.2 ++ r.2.2)
    step^[if k.tail = k.head then 2 else 6] (k, .outside, []) =
      ((keyBufferPop k).2, .outside, [.readHead, .returned (keyBufferPop k).1]) := by
  unfold keyBufferPop
  cases headFirst <;> by_cases hempty : k.tail = k.head <;>
    simp [popAccess, hempty]

example : (handleScancode 0x1E#8 Modifiers.initial).2 = some 97#8 := by decide

end AlderKernel.Drivers
