import AlderKernel.Drivers.Ps2
import AlderKernel.Shell.Util

/-!
# The line editor of the shell

The loop of `shell_start` in `kernel/shell/shell.c`, one key at a time, with the command
history. Characters given to `print_char` and `print_text` are collected in order. What
`interpret_command` leaves in the line and prints, and the path in the prompt, come from other
modules and are parameters. A step has no result when it would leave a buffer or follow a null
pointer.
-/

namespace AlderKernel.Shell

open Machine Drivers

/-- `HISTORY_SIZE`. -/
def historySize : U32 := 16#32

/-- The static variables of `shell.c` and the local `idx` of `shell_start`. -/
structure Editor where
  /-- `shell_buffer`. -/
  shellBuffer : Line
  /-- `history`. -/
  history : U32 → Line
  /-- `history_count`. -/
  historyCount : U32
  /-- `history_next`. -/
  historyNext : U32
  /-- `history_browse_index`, a signed number. -/
  historyBrowseIndex : U32
  /-- `saved_current`. -/
  savedCurrent : Line
  /-- `idx`. -/
  idx : U32

/-- The shell when its loop is entered. -/
def Editor.start : Editor := ⟨.zero, fun _ => .zero, 0#32, 0#32, -1#32, .zero, 0#32⟩

/-- What the shell uses of other modules while it runs a line. -/
structure Commands where
  /-- What `interpret_command` leaves in the line and what it prints. -/
  interpretCommand : Line → Line × List U8
  /-- What `vfs_print_cwd_path` prints. -/
  cwdPath : List U8

/-- `history_add`. -/
def historyAdd (cmd : Line) (s : Editor) : Option Editor :=
  (readAt cmd 0#32).bind fun first =>
    if first = 0#8 then some s
    else if s.historyNext < historySize then
      (strCopy (s.history s.historyNext) cmd).map fun entry =>
        { s with
          history := fun i => if i = s.historyNext then entry else s.history i
          historyNext := (s.historyNext + 1#32) % historySize
          historyCount := if s.historyCount < historySize then s.historyCount + 1#32
            else s.historyCount }
    else none

/-- `history_get`: the entry, or no line for a null pointer. -/
def historyGet (back : U32) (s : Editor) : Option Line :=
  if s.historyCount ≤ back then none
  else
    let idx := (s.historyNext + historySize - 1#32 - back) % historySize
    some (s.history idx)

/-- The loop of `redraw_line` that copies the new content, from index `i` on. -/
def redrawFrom (newContent : Line) : ℕ → U32 → Line → List U8 → Option (U32 × Line × List U8)
  | 0, _, _, _ => none
  | turns + 1, i, buffer, printed =>
    (readAt newContent i).bind fun c =>
      if c ≠ 0#8 ∧ i < shellBufferSize - 1#32 then
        (writeAt buffer i c).bind fun buffer =>
          redrawFrom newContent turns (i + 1#32) buffer (printed ++ [c])
      else (writeAt buffer i 0#8).map fun buffer => (i, buffer, printed)

/-- `redraw_line`: the shell with the new line, and what is printed. -/
def redrawLine (newContent : Line) (s : Editor) : Option (Editor × List U8) :=
  (redrawFrom newContent (shellBufferSize.toNat + 1) 0#32 s.shellBuffer
    (List.replicate s.idx.toNat 8#8)).map fun r =>
      ({ s with shellBuffer := r.2.1, idx := r.1 }, r.2.2)

/-- What `print_prompt` prints. -/
def printPrompt (commands : Commands) : List U8 :=
  chars "\nzSlash " ++ commands.cwdPath ++ chars "> "

/-- The first Up key stashes the line that is being typed. -/
def stashLine (s : Editor) : Option Editor :=
  if s.historyBrowseIndex = -1#32 then
    (writeAt s.shellBuffer s.idx 0#8).bind fun buffer =>
      (strCopy s.savedCurrent buffer).map fun saved =>
        { s with shellBuffer := buffer, savedCurrent := saved }
  else some s

/-- Go to an entry of the history and show it. -/
def showEntry (browse : U32) (s : Editor) : Option (Editor × List U8) :=
  let s := { s with historyBrowseIndex := browse }
  (historyGet browse s).bind fun entry => redrawLine entry s

/-- `KEY_ARROW_UP`. -/
def arrowUp (s : Editor) : Option (Editor × List U8) :=
  (stashLine s).bind fun s =>
    if s.historyBrowseIndex + 1#32 < s.historyCount then showEntry (s.historyBrowseIndex + 1#32) s
    else some (s, [])

/-- `KEY_ARROW_DOWN`. -/
def arrowDown (s : Editor) : Option (Editor × List U8) :=
  if (0#32).slt s.historyBrowseIndex then showEntry (s.historyBrowseIndex - 1#32) s
  else if s.historyBrowseIndex = 0#32 then
    redrawLine s.savedCurrent { s with historyBrowseIndex := -1#32 }
  else some (s, [])

/-- A newline: the line is stored and run. -/
def enterLine (commands : Commands) (s : Editor) : Option (Editor × List U8) :=
  (writeAt s.shellBuffer s.idx 0#8).bind fun line =>
    (historyAdd line { s with shellBuffer := line }).map fun s =>
      let r := commands.interpretCommand s.shellBuffer
      ({ s with shellBuffer := r.1, historyBrowseIndex := -1#32, idx := 0#32 },
        chars "\n" ++ r.2 ++ printPrompt commands)

/-- A backspace. -/
def eraseChar (s : Editor) : Editor × List U8 :=
  if 0#32 < s.idx then ({ s with idx := s.idx - 1#32 }, [8#8]) else (s, [])

/-- Any other character. -/
def typeChar (c : U8) (s : Editor) : Option (Editor × List U8) :=
  if s.idx < shellBufferSize - 1#32 then
    (writeAt s.shellBuffer s.idx c).map fun buffer =>
      ({ s with shellBuffer := buffer, idx := s.idx + 1#32 }, [c])
  else some (s, [])

/-- A turn of the loop of `shell_start`, with the key that `key_buffer_pop` returns: the shell after
it and what is printed. -/
def processKey (commands : Commands) (c : U8) (s : Editor) : Option (Editor × List U8) :=
  if c = 0#8 then some (s, [])
  else if c = keyArrowUp then arrowUp s
  else if c = keyArrowDown then arrowDown s
  else if c = 10#8 then enterLine commands s
  else if c = 8#8 then some (eraseChar s)
  else typeChar c s

end AlderKernel.Shell
