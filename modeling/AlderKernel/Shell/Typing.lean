import AlderKernel.Drivers.KeyRuns
import AlderKernel.Shell.Interpreter
import AlderKernel.Shell.LineEditor

/-!
# From the keyboard to the commands

Interrupts of the keyboard come at any time, between any two memory accesses of the shell's
`key_buffer_pop` too. The loop of `shell_start` processes what its pops return. Without a dropped
key the shell, once it has caught up, is where the scancodes alone lead to.
-/

namespace AlderKernel.Shell

open Machine Drivers

/-- The characters of a sequence of scancodes. -/
def decode : List U8 → Modifiers → List U8
  | [], _ => []
  | scancode :: scancodes, m =>
    (handleScancode scancode m).2.toList ++ decode scancodes (handleScancode scancode m).1

/-- The modifiers after a sequence of scancodes. -/
def modifiersAfter (scancodes : List U8) (m : Modifiers) : Modifiers :=
  scancodes.foldl (fun m scancode => (handleScancode scancode m).1) m

/-- The kernel around the line editor. What the commands do may depend on all the characters that
the shell has taken before. -/
abbrev World := List U8 → Behaviour

/-- The keys that a sequence of characters stands for, when others were taken before. -/
def World.presses (world : World) : List U8 → List U8 → List Press
  | _, [] => []
  | before, c :: cs => { toBehaviour := world before, key := c } :: world.presses (before ++ [c]) cs

/-- Commands that print nothing. -/
def silent : Behaviour := ⟨⟨fun line => (line, []), []⟩, fun _ => [], fun _ => rfl⟩

/-- The lines that are run while characters are taken. -/
def enteredLines : List U8 → LineEditor → List (List U8)
  | [], _ => []
  | c :: cs, e =>
    (if c = 10#8 then [e.line] else []) ++
      enteredLines cs (e.press { toBehaviour := silent, key := c }).1

/-- The commands that are run for a sequence of characters. -/
def commandsOf (cs : List U8) : List ShellCommand := (enteredLines cs .start).filterMap callOf

/-- The call that `interpret_command` makes when the shell takes a character. -/
def callAt (c : U8) (s : Editor) : List ShellCommand :=
  if c = 10#8 then
    ((writeAt s.shellBuffer s.idx 0#8).bind interpretCommand).elim [] fun r => r.2.toList
  else []

/-- The keyboard and the shell. -/
structure System where
  keyboard : Keyboard
  pop : PopPoint
  editor : Editor

/-- The runs of keyboard and shell: the scancodes that the keyboard has sent, what could be seen of
the key buffer, the characters that the shell has taken, what it has printed for them, and the
commands that it has run. No command takes keys itself, as `loop` does. -/
inductive TypingRun (world : World) :
    List U8 → List KeyEvent → List U8 → List U8 → List ShellCommand → System → Prop
  | boot : TypingRun world [] [] [] [] [] ⟨⟨.initial, .empty⟩, .outside, .start⟩
  | interrupt {scancodes taken printed : List U8} {log : List KeyEvent}
      {calls : List ShellCommand} {s : System}
      (h : TypingRun world scancodes log taken printed calls s) (scancode : U8) :
      TypingRun world (scancodes ++ [scancode])
        (log ++ pushEvents (handleScancode scancode s.keyboard.modifiers).2 s.keyboard.buffer)
        taken printed calls { s with keyboard := keyboardHandler scancode s.keyboard }
  | access {scancodes taken printed : List U8} {log : List KeyEvent}
      {calls : List ShellCommand} {s : System}
      (h : TypingRun world scancodes log taken printed calls s) (headFirst : Bool)
      (hpop : returnedChars (popAccess headFirst s.keyboard.buffer s.pop).2.2 = []) :
      TypingRun world scancodes (log ++ (popAccess headFirst s.keyboard.buffer s.pop).2.2) taken
        printed calls
        { s with
          keyboard := { s.keyboard with buffer := (popAccess headFirst s.keyboard.buffer s.pop).1 }
          pop := (popAccess headFirst s.keyboard.buffer s.pop).2.1 }
  | turn {scancodes taken printed : List U8} {log : List KeyEvent}
      {calls : List ShellCommand} {s : System}
      (h : TypingRun world scancodes log taken printed calls s) (headFirst : Bool) {c : U8}
      {r : Editor × List U8}
      (hpop : returnedChars (popAccess headFirst s.keyboard.buffer s.pop).2.2 = [c])
      (hkey : processKey (world taken).commands c s.editor = some r) :
      TypingRun world scancodes (log ++ (popAccess headFirst s.keyboard.buffer s.pop).2.2)
        (taken ++ [c]) (printed ++ r.2) (calls ++ callAt c s.editor)
        { keyboard := { s.keyboard with buffer := (popAccess headFirst s.keyboard.buffer s.pop).1 }
          pop := (popAccess headFirst s.keyboard.buffer s.pop).2.1
          editor := r.1 }

/-- No key was dropped. -/
def NoneDropped (log : List KeyEvent) : Prop := ∀ c, KeyEvent.dropped c ∉ log

section

variable {world : World} {scancodes taken printed before cs : List U8} {log : List KeyEvent}
  {calls : List ShellCommand} {s : System} {m : Modifiers} {e : LineEditor}

/-- The characters of scancodes after others. -/
theorem decode_append (scancodes more : List U8) (m : Modifiers) :
    decode (scancodes ++ more) m =
    decode scancodes m ++ decode more (modifiersAfter scancodes m) := by
  induction scancodes generalizing m with
  | nil => rfl
  | cons scancode scancodes ih =>
    simp only [List.cons_append, decode, ih, List.append_assoc]
    rfl

/-- The keys of characters after others. -/
theorem World.presses_append (world : World) (before cs more : List U8) :
    world.presses before (cs ++ more) =
    world.presses before cs ++ world.presses (before ++ cs) more := by
  induction cs generalizing before with
  | nil => simp [World.presses]
  | cons c cs ih =>
    simp only [List.cons_append, World.presses, ih, List.append_assoc, List.nil_append]

/-- The keys after others. -/
theorem LineEditor.presses_append (ps qs : List Press) (e : LineEditor) :
    e.presses (ps ++ qs) =
      (((e.presses ps).1.presses qs).1, (e.presses ps).2 ++ ((e.presses ps).1.presses qs).2) := by
  induction ps generalizing e with
  | nil => rfl
  | cons p ps ih =>
    simp only [List.cons_append, LineEditor.presses, ih, List.append_assoc]

/-- A run of keyboard and shell is one of the keyboard driver. -/
theorem TypingRun.keyRun (h : TypingRun world scancodes log taken printed calls s) :
    KeyRun s.keyboard s.pop log := by
  induction h with
  | boot => exact .boot
  | interrupt _ scancode ih => exact ih.interrupt scancode
  | access _ headFirst _ ih => exact ih.access headFirst
  | turn _ headFirst _ _ ih => exact ih.access headFirst

/-- A push of the interrupt returns nothing. -/
theorem returnedChars_pushEvents (pushed : Option U8) (k : KeyBuffer) :
    returnedChars (pushEvents pushed k) = [] := by
  cases pushed with
  | none => rfl
  | some c =>
    unfold pushEvents
    by_cases hfull : k.Full
    · simp [returnedChars, KeyEvent.returnedChar, hfull]
    · simp [returnedChars, KeyEvent.returnedChar, hfull]

/-- An access of `key_buffer_pop` accepts nothing. -/
theorem acceptedChars_popAccess (headFirst : Bool) (k : KeyBuffer) (pop : PopPoint) :
    acceptedChars (popAccess headFirst k pop).2.2 = [] := by
  unfold popAccess
  cases pop with
  | outside => cases headFirst <;> rfl
  | haveTail tail => dsimp only; split_ifs <;> rfl
  | haveHead head => dsimp only; split_ifs <;> rfl
  | compared => rfl
  | haveIndex tail => rfl
  | haveChar c => rfl
  | haveNext c tail => rfl

/-- The shell has taken what the pops returned. -/
theorem TypingRun.taken_eq (h : TypingRun world scancodes log taken printed calls s) :
    taken = returnedChars log := by
  have happend (log more : List KeyEvent) :
      returnedChars (log ++ more) = returnedChars log ++ returnedChars more := List.filterMap_append
  induction h with
  | boot => rfl
  | interrupt _ scancode ih => rw [happend, returnedChars_pushEvents, List.append_nil, ih]
  | access _ headFirst hpop ih => rw [happend, hpop, List.append_nil, ih]
  | turn _ headFirst hpop _ ih => rw [happend, hpop, ih]

/-- Without a dropped key all characters of the scancodes were accepted. -/
theorem TypingRun.accepted_eq (h : TypingRun world scancodes log taken printed calls s) :
    s.keyboard.modifiers = modifiersAfter scancodes .initial ∧
      (NoneDropped log → acceptedChars log = decode scancodes .initial) := by
  have happend (log more : List KeyEvent) :
      acceptedChars (log ++ more) = acceptedChars log ++ acceptedChars more := List.filterMap_append
  have hless {log more : List KeyEvent} (h : NoneDropped (log ++ more)) : NoneDropped log :=
    fun c hc => h c (List.mem_append_left _ hc)
  induction h with
  | boot => exact ⟨rfl, fun _ => rfl⟩
  | @interrupt scancodes taken printed log calls s _ scancode ih =>
    obtain ⟨hmodifiers, haccepted⟩ := ih
    refine ⟨?_, fun hnone => ?_⟩
    · unfold modifiersAfter at *
      rw [List.foldl_append, ← hmodifiers]
      rfl
    rw [happend, haccepted (hless hnone), decode_append, ← hmodifiers]
    congr 1
    have hpushed := hnone
    unfold decode decode
    cases hchar : (handleScancode scancode s.keyboard.modifiers).2 with
    | none => rfl
    | some c =>
      have hroom : ¬ s.keyboard.buffer.Full := by
        intro hfull
        refine hnone c (List.mem_append_right _ ?_)
        simp [pushEvents, hchar, hfull]
      simp [pushEvents, acceptedChars, KeyEvent.acceptedChar, hroom]
  | access _ headFirst _ ih =>
    refine ⟨ih.1, fun hnone => ?_⟩
    rw [happend, acceptedChars_popAccess, List.append_nil, ih.2 (hless hnone)]
  | turn _ headFirst _ _ ih =>
    refine ⟨ih.1, fun hnone => ?_⟩
    rw [happend, acceptedChars_popAccess, List.append_nil, ih.2 (hless hnone)]

/-- The shell has done what the characters that it has taken make the line editor do. -/
theorem TypingRun.implements (h : TypingRun world scancodes log taken printed calls s) :
    s.editor.Implements (LineEditor.start.presses (world.presses [] taken)).1 ∧
      printed = (LineEditor.start.presses (world.presses [] taken)).2 := by
  induction h with
  | boot => exact ⟨Editor.start_implements, rfl⟩
  | interrupt _ _ ih => exact ih
  | access _ _ _ ih => exact ih
  | @turn scancodes taken printed log calls s _ headFirst c r hpop hkey ih =>
    obtain ⟨himpl, rfl⟩ := ih
    obtain ⟨s', hrun, himpl'⟩ := himpl.press { toBehaviour := world taken, key := c }
    obtain rfl := Option.some.inj (hrun.symm.trans hkey)
    rw [World.presses_append, LineEditor.presses_append, List.nil_append]
    refine ⟨himpl', ?_⟩
    simp only [World.presses, LineEditor.presses, List.append_nil]

/-- What the keys do to the line does not depend on what the commands do. -/
theorem LineEditor.press_congr {p q : Press} (h : p.key = q.key) (e : LineEditor) :
    (e.press p).1 = (e.press q).1 := by
  have henter : (e.enter p).1 = (e.enter q).1 := rfl
  unfold LineEditor.press
  rw [h]
  split_ifs
  · rfl
  · rfl
  · rfl
  · exact henter
  · rfl
  · rfl
  · rfl
  · rfl

/-- The lines that are run for a further character. -/
theorem enteredLines_concat (world : World) (before cs : List U8) (c : U8) (e : LineEditor) :
    enteredLines (cs ++ [c]) e = enteredLines cs e ++
      if c = 10#8 then [(e.presses (world.presses before cs)).1.line] else [] := by
  induction cs generalizing before e with
  | nil => simp [enteredLines, World.presses, LineEditor.presses]
  | cons d cs ih =>
    have hsame : (e.press { toBehaviour := silent, key := d }).1 =
        (e.press { toBehaviour := world before, key := d }).1 :=
      LineEditor.press_congr (p := { toBehaviour := silent, key := d })
        (q := { toBehaviour := world before, key := d }) rfl e
    simp only [List.cons_append, enteredLines, ih (before ++ [d]), List.append_assoc, World.presses,
      LineEditor.presses, hsame]

/-- The interpreter makes the call of the line editor's line. -/
theorem Editor.Implements.callAt_eq {t : Editor} (h : t.Implements e) (c : U8) :
    callAt c t = if c = 10#8 then (callOf e.line).toList else [] := by
  unfold callAt
  split_ifs
  · obtain ⟨ended, hw, -⟩ := h.safe.ended
    obtain ⟨hlength, hchars⟩ := chars_ended h.safe hw
    obtain ⟨line', hrun, -⟩ := interpretCommand_spec hlength
    rw [hw, Option.bind_some, hrun, hchars, h.line]
    rfl
  · rfl

/-- The commands that were run are those of the characters that were taken. -/
theorem TypingRun.calls_eq (h : TypingRun world scancodes log taken printed calls s) :
    calls = commandsOf taken := by
  induction h with
  | boot => rfl
  | interrupt _ _ ih => exact ih
  | access _ _ _ ih => exact ih
  | @turn scancodes taken printed log calls s hrun headFirst c r hpop hkey ih =>
    unfold commandsOf at *
    rw [enteredLines_concat world [], List.filterMap_append, ← ih, hrun.implements.1.callAt_eq]
    congr 1
    split_ifs
    · cases hcall : callOf (LineEditor.start.presses (world.presses [] taken)).1.line with
      | none => simp [hcall]
      | some call => simp [hcall]
    · rfl

/-- Without a dropped key the characters of the scancodes are those that were taken and those that
wait. -/
theorem TypingRun.waiting (h : TypingRun world scancodes log taken printed calls s)
    (hnone : NoneDropped log) : ∃ waiting, decode scancodes .initial = taken ++ waiting ∧
      (s.keyboard.buffer.tail = s.keyboard.buffer.head → waiting = []) := by
  obtain ⟨waiting, hinv⟩ := h.keyRun.inv
  refine ⟨waiting, ?_, fun hempty => hinv.queue.empty_iff.mp hempty⟩
  rw [← h.accepted_eq.2 hnone, hinv.fifo, h.taken_eq]

/-- The timing of the interrupts does not matter. In every run of keyboard and shell in which no
key was dropped, the characters of the scancodes are those that the shell has taken and those that
still wait, and none waits when the buffer is empty. The commands that the shell has run, what it
has printed, and the line, history and browse position that its variables stand for, depend on the
characters taken only. -/
theorem typing_independent_of_timing (h : TypingRun world scancodes log taken printed calls s)
    (hnone : NoneDropped log) :
    ∃ waiting, decode scancodes .initial = taken ++ waiting ∧
      (s.keyboard.buffer.tail = s.keyboard.buffer.head → waiting = []) ∧
      calls = commandsOf taken ∧
      printed = (LineEditor.start.presses (world.presses [] taken)).2 ∧
      s.editor.Implements (LineEditor.start.presses (world.presses [] taken)).1 := by
  obtain ⟨waiting, hdecode, hempty⟩ := h.waiting hnone
  obtain ⟨himpl, hprinted⟩ := h.implements
  exact ⟨waiting, hdecode, hempty, h.calls_eq, hprinted, himpl⟩

end

/-- The key A is pressed while the shell looks at an empty buffer, after its read of the tail. -/
theorem typing_a : ∃ s, TypingRun (fun _ => silent) [0x1E#8]
      [.accepted 97#8, .readHead, .returned 97#8] [97#8] [97#8] [] s ∧
    s.editor.Implements
      (LineEditor.start.presses (World.presses (fun _ => silent) [] [97#8])).1 := by
  have htail := TypingRun.access (.boot : TypingRun (fun _ => silent) ..) false rfl
  have hkey := htail.interrupt 0x1E#8
  have hchar := (((hkey.access false rfl).access false rfl).access false rfl).access false rfl
  have hturn := TypingRun.turn hchar false (c := 97#8) rfl rfl
  refine ⟨_, hturn, ?_⟩
  obtain ⟨-, -, -, -, -, himpl⟩ :=
    typing_independent_of_timing hturn (by unfold NoneDropped; decide)
  exact himpl

end AlderKernel.Shell
