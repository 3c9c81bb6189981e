import AlderKernel.Shell.EditorRuns
import AlderKernel.Shell.Screen

/-!
# What the screen shows while a line is edited

The line editor and the screen keep separate positions. Each key erases some characters at the end
of the line and adds others, and prints as many backspaces and those characters; so the
screen displays the line after every key.
-/

namespace AlderKernel.Shell

open Machine Drivers

/-- The characters of the line that is being edited. -/
def Editor.line (s : Editor) : List U8 := s.shellBuffer.chars 0 s.idx.toNat

/-- A string without newlines and backspaces. -/
def Line.PlainString (line : Line) : Prop :=
  ∀ n, line.HasLength n → ∀ c ∈ line.chars 0 n.toNat, PlainChar c

/-- No line of the editor has a newline or a backspace. -/
structure Editor.Plain (s : Editor) : Prop where
  line : ∀ c ∈ s.line, PlainChar c
  history : ∀ i < historySize, (s.history i).PlainString
  saved : s.savedCurrent.PlainString

/-- What is printed erases the end of a line and puts other characters there. -/
def Renders (line line' printed : List U8) : Prop :=
  ∃ kept erased added, line = kept ++ erased ∧ line' = kept ++ added ∧
    printed = List.replicate erased.length 8#8 ++ added ∧ ∀ c ∈ added, PlainChar c

/-- The shell and the screen. -/
structure Console where
  editor : Editor
  screen : Screen

/-- A key, with what the command that it may run does: what it leaves in the line, and what it
and the path in the prompt after it print. -/
structure Input where
  key : U8
  commands : Commands
  output : List ScreenOp
  path : List ScreenOp

/-- What `print_prompt` does to the screen. -/
def promptOps (path : List ScreenOp) : List ScreenOp :=
  .printText (chars "\nzSlash ") :: path ++ [.printText (chars "> ")]

/-- The console when the loop of `shell_start` is entered, after what the kernel printed since
`kernel_start` cleared the screen. -/
def Console.start (s : Screen) (boot path : List ScreenOp) : Console where
  editor := .start
  screen := runOps (.clearScreen 0#8 :: boot ++
    .printText (chars "\nWelcome to zSlash.\nType 'help' for a list of commands.\n") ::
      promptOps path) s

/-- A turn of the loop of `shell_start`. -/
def Console.key (i : Input) (c : Console) : Option Console :=
  (processKey i.commands i.key c.editor).map fun r =>
    ⟨r.1, if i.key = 10#8 then runOps (.printChar 10#8 :: i.output ++ promptOps i.path) c.screen
      else printChars r.2 c.screen⟩

/-- The loop of `shell_start` on a sequence of keys. -/
def Console.keys : List Input → Console → Option Console
  | [], c => some c
  | i :: is, c => (c.key i).bind (keys is)

section

variable {s s' : Editor} {line newContent : Line} {n browse : U32} {c : U8} {k m : ℕ}
  {commands : Commands} {r : Editor × List U8}

/-! ### Lines -/

/-- One character more of a line. -/
theorem Line.chars_succ (line : Line) (m : ℕ) :
    line.chars 0 (m + 1) = line.chars 0 m ++ [line (BitVec.ofNat 32 m)] := by
  simp [Line.chars, List.range'_concat]

/-- The characters of two lines are the same where the lines are. -/
theorem Line.chars_congr {line' : Line} (h : ∀ j < n, line j = line' j) :
    line.chars 0 n.toNat = line'.chars 0 n.toNat := by
  unfold Line.chars
  refine List.map_congr_left fun j hj => h _ ?_
  have hlt := (List.mem_range'_1.mp hj).2
  bv_omega

/-- A line has one length. -/
theorem Line.HasLength.unique {n' : U32} (h : line.HasLength n) (h' : line.HasLength n') :
    n = n' := by
  refine BitVec.le_antisymm (BitVec.not_lt.mp fun hlt => ?_) (BitVec.not_lt.mp fun hlt => ?_)
  · exact h.ne_zero n' hlt h'.ends
  · exact h'.ne_zero n hlt h.ends

/-- A copy of a plain line is plain. -/
theorem Line.PlainString.of_chars (h : line.HasLength n)
    (hplain : ∀ c ∈ line.chars 0 n.toNat, PlainChar c) : line.PlainString := by
  intro n' hn'
  rwa [hn'.unique h]

/-- The line is as long as the index says. -/
@[simp] theorem Editor.length_line (s : Editor) : s.line.length = s.idx.toNat := by
  simp [Editor.line]

/-! ### What the keys print -/

/-- Nothing is printed when the line stays. -/
theorem Renders.refl (l : List U8) : Renders l l [] :=
  ⟨l, [], [], by simp, by simp, rfl, by simp⟩

/-- `redraw_line` erases the line and prints the other one. -/
theorem Editor.Plain.redrawLine (h : s.Plain) (hn : newContent.HasLength n)
    (hplain : newContent.PlainString) (hr : redrawLine newContent s = some r) :
    r.1.Plain ∧ Renders s.line r.1.line r.2 := by
  obtain ⟨buffer, hrun, hcopied⟩ := redrawLine_spec s hn
  obtain rfl := Option.some.inj (hrun.symm.trans hr)
  have hline : buffer.chars 0 n.toNat = newContent.chars 0 n.toNat := Line.chars_congr hcopied
  have hadded : ∀ c ∈ newContent.chars 0 n.toNat, PlainChar c := hplain n hn
  refine ⟨⟨?_, h.history, h.saved⟩, [], s.line, newContent.chars 0 n.toNat, rfl, hline, ?_, hadded⟩
  · change ∀ c ∈ buffer.chars 0 n.toNat, PlainChar c
    rwa [hline]
  · simp

/-- `history_add` keeps a plain line. -/
theorem Editor.Plain.historyAdd (h : s.Plain) (hn : line.HasLength n)
    (hplain : ∀ c ∈ line.chars 0 n.toNat, PlainChar c) (hr : historyAdd line s = some s') :
    s'.Plain := by
  unfold Shell.historyAdd at hr
  rw [readAt_of_lt (by decide), Option.bind_some] at hr
  by_cases hempty : line 0#32 = 0#8
  · rw [if_pos hempty] at hr
    obtain rfl := Option.some.inj hr
    exact h
  · rw [if_neg hempty, ite_eq_iff] at hr
    obtain ⟨-, hr⟩ | ⟨-, hr⟩ := hr
    case inr => cases hr
    obtain ⟨entry, hcopy, rfl⟩ := Option.map_eq_some_iff.mp hr
    obtain ⟨copy, hrun, hlength, hsame⟩ := strCopy_spec (s.history s.historyNext) hn
    obtain rfl := Option.some.inj (hrun.symm.trans hcopy)
    refine ⟨h.line, fun i hi => ?_, h.saved⟩
    change Line.PlainString (if i = s.historyNext then copy else s.history i)
    split_ifs
    · refine .of_chars hlength ?_
      rwa [Line.chars_congr fun j hj => hsame j (BitVec.le_of_lt hj)]
    · exact h.history i hi

/-- Ending the line at the index keeps its characters. -/
theorem chars_ended (hsafe : s.Safe) (hw : writeAt s.shellBuffer s.idx 0#8 = some line) :
    line.HasLength s.idx ∧ line.chars 0 s.idx.toNat = s.line := by
  obtain ⟨ended, hended, hlength⟩ := hsafe.ended
  obtain rfl := Option.some.inj (hended.symm.trans hw)
  refine ⟨hlength, Line.chars_congr fun j hj => ?_⟩
  unfold writeAt at hw
  rw [if_pos hlength.lt] at hw
  rw [← Option.some.inj hw]
  exact if_neg (BitVec.ne_of_lt hj)

/-- Stashing the line keeps it. -/
theorem Editor.Plain.stashLine (h : s.Plain) (hsafe : s.Safe) (hr : stashLine s = some s') :
    s'.Plain ∧ s'.line = s.line := by
  unfold Shell.stashLine at hr
  split_ifs at hr
  · obtain ⟨ended, hw, hcopy⟩ := Option.bind_eq_some_iff.mp hr
    obtain ⟨saved, hsaved, rfl⟩ := Option.map_eq_some_iff.mp hcopy
    obtain ⟨hlength, hchars⟩ := chars_ended hsafe hw
    obtain ⟨copy, hrun, hlength', hsame⟩ := strCopy_spec s.savedCurrent hlength
    obtain rfl := Option.some.inj (hrun.symm.trans hsaved)
    have hsaved : copy.chars 0 s.idx.toNat = s.line := by
      rw [Line.chars_congr fun j hj => hsame j (BitVec.le_of_lt hj), hchars]
    refine ⟨⟨?_, h.history, .of_chars hlength' (hsaved ▸ h.line)⟩, hchars⟩
    change ∀ c ∈ ended.chars 0 s.idx.toNat, PlainChar c
    rw [hchars]
    exact h.line
  · obtain rfl := Option.some.inj hr
    exact ⟨h, rfl⟩

/-- Showing an entry of the history. -/
theorem Editor.Plain.showEntry (h : s.Plain) (hsafe : s.Safe)
    (hr : showEntry browse s = some r) : r.1.Plain ∧ Renders s.line r.1.line r.2 := by
  obtain ⟨entry, hget, hredraw⟩ := Option.bind_eq_some_iff.mp hr
  unfold historyGet at hget
  split_ifs at hget
  obtain rfl := Option.some.inj hget
  have hslot : (s.historyNext + historySize - 1#32 - browse) % historySize < historySize :=
    BitVec.umod_lt _ (by decide)
  obtain ⟨n, hn⟩ := hsafe.history_terminated _ hslot
  exact redrawLine (s := { s with historyBrowseIndex := browse }) ⟨h.line, h.history, h.saved⟩ hn
    (h.history _ hslot) hredraw

/-- The Up key. -/
theorem Editor.Plain.arrowUp (h : s.Plain) (hsafe : s.Safe) (hr : arrowUp s = some r) :
    r.1.Plain ∧ Renders s.line r.1.line r.2 := by
  obtain ⟨s₁, hstash, hshow⟩ := Option.bind_eq_some_iff.mp hr
  obtain ⟨s₂, hstash', hsafe', -⟩ := hsafe.stashLine
  obtain rfl := Option.some.inj (hstash'.symm.trans hstash)
  obtain ⟨hplain, hline⟩ := h.stashLine hsafe hstash
  rw [← hline]
  split_ifs at hshow
  · exact hplain.showEntry hsafe' hshow
  · obtain rfl := Option.some.inj hshow
    exact ⟨hplain, .refl _⟩

/-- The Down key. -/
theorem Editor.Plain.arrowDown (h : s.Plain) (hsafe : s.Safe) (hr : arrowDown s = some r) :
    r.1.Plain ∧ Renders s.line r.1.line r.2 := by
  unfold Shell.arrowDown at hr
  split_ifs at hr
  · exact h.showEntry hsafe hr
  · obtain ⟨n, hn⟩ := hsafe.saved_terminated
    exact redrawLine (s := { s with historyBrowseIndex := -1#32 }) ⟨h.line, h.history, h.saved⟩ hn
      h.saved hr
  · obtain rfl := Option.some.inj hr
    exact ⟨h, .refl _⟩

/-- A newline keeps the line in the history and starts an empty one. -/
theorem Editor.Plain.enterLine (h : s.Plain) (hsafe : s.Safe)
    (hr : enterLine commands s = some r) : r.1.Plain ∧ r.1.line = [] := by
  obtain ⟨ended, hw, hadd⟩ := Option.bind_eq_some_iff.mp hr
  obtain ⟨s₁, hadd', rfl⟩ := Option.map_eq_some_iff.mp hadd
  obtain ⟨hlength, hchars⟩ := chars_ended hsafe hw
  have hended : Plain { s with shellBuffer := ended } := by
    refine ⟨?_, h.history, h.saved⟩
    change ∀ c ∈ ended.chars 0 s.idx.toNat, PlainChar c
    rw [hchars]
    exact h.line
  have hadded := hended.historyAdd hlength (hchars ▸ h.line) hadd'
  have hempty (buffer : Line) : buffer.chars 0 (0#32).toNat = [] := Line.chars_self buffer 0
  refine ⟨⟨?_, hadded.history, hadded.saved⟩, hempty _⟩
  intro c hc
  rw [Editor.line, hempty] at hc
  exact absurd hc List.not_mem_nil

/-- A backspace takes the last character. -/
theorem Editor.Plain.eraseChar (h : s.Plain) :
    (eraseChar s).1.Plain ∧ Renders s.line (eraseChar s).1.line (eraseChar s).2 := by
  unfold Shell.eraseChar
  split_ifs with hpos
  · have hidx : s.idx.toNat = (s.idx - 1#32).toNat + 1 := by bv_omega
    have hline : s.line = s.shellBuffer.chars 0 (s.idx - 1#32).toNat ++
        [s.shellBuffer (BitVec.ofNat 32 (s.idx - 1#32).toNat)] := by
      rw [Editor.line, hidx, Line.chars_succ]
    refine ⟨⟨fun c hc => h.line c ?_, h.history, h.saved⟩, _, _, [], hline, ?_, rfl, by simp⟩
    · rw [hline]
      exact List.mem_append_left _ hc
    · exact (List.append_nil _).symm
  · exact ⟨h, .refl _⟩

/-- Another character is added, or dropped when the line is full. -/
theorem Editor.Plain.typeChar (h : s.Plain) (hc : PlainChar c) (hr : typeChar c s = some r) :
    r.1.Plain ∧ Renders s.line r.1.line r.2 := by
  have hsize : shellBufferSize = 128#32 := rfl
  unfold Shell.typeChar at hr
  split_ifs at hr with hroom
  · rw [hsize] at hroom
    rw [writeAt_of_lt (by bv_omega), Option.map_some] at hr
    obtain rfl := Option.some.inj hr
    have hidx : (s.idx + 1#32).toNat = s.idx.toNat + 1 := by bv_omega
    have hline : Line.chars (fun j => if j = s.idx then c else s.shellBuffer j) 0
        (s.idx + 1#32).toNat = s.line ++ [c] := by
      rw [hidx, Line.chars_succ, BitVec.ofNat_toNat, BitVec.setWidth_eq, if_pos rfl]
      congr 1
      exact Line.chars_congr fun j hj => if_neg (BitVec.ne_of_lt hj)
    refine ⟨⟨fun x hx => ?_, h.history, h.saved⟩, s.line, [], [c], by simp, hline, rfl, ?_⟩
    · rw [Editor.line, hline] at hx
      rcases List.mem_append.mp hx with hx | hx
      · exact h.line x hx
      · obtain rfl := List.mem_singleton.mp hx
        exact hc
    · intro x hx
      obtain rfl := List.mem_singleton.mp hx
      exact hc
  · obtain rfl := Option.some.inj hr
    exact ⟨h, .refl _⟩

/-- What a key does to the line: a newline starts an empty one, and for another key what is printed
turns the old line into the new one. -/
theorem Editor.Plain.processKey (h : s.Plain) (hsafe : s.Safe)
    (hr : processKey commands c s = some r) :
    r.1.Plain ∧ if c = 10#8 then r.1.line = [] else Renders s.line r.1.line r.2 := by
  unfold Shell.processKey at hr
  by_cases hnewline : c = 10#8
  · subst hnewline
    rw [if_neg (by decide), if_neg (by decide), if_neg (by decide), if_pos rfl] at hr
    rw [if_pos rfl]
    exact h.enterLine hsafe hr
  · rw [if_neg hnewline] at hr ⊢
    split_ifs at hr with hzero hup hdown hback
    · obtain rfl := Option.some.inj hr
      exact ⟨h, .refl _⟩
    · exact h.arrowUp hsafe hr
    · exact h.arrowDown hsafe hr
    · obtain rfl := Option.some.inj hr
      exact h.eraseChar
    · exact h.typeChar ⟨hback, hnewline⟩ hr

/-- The editor that `shell_start` begins with. -/
theorem Editor.start_plain : Editor.start.Plain := by
  have hzero : Line.zero.PlainString := by
    refine .of_chars (n := 0#32) ⟨by decide, rfl, fun j hj => absurd hj (by bv_omega)⟩ ?_
    rw [show (0#32).toNat = 0 from rfl, Line.chars_self]
    simp
  exact ⟨by simp [Editor.line, Editor.start, Line.chars], fun _ _ => hzero, hzero⟩

end

/-! ### What the screen shows -/

/-- The editor is safe, and the screen displays its line. -/
structure Console.Shows (c : Console) : Prop where
  safe : c.editor.Safe
  plain : c.editor.Plain
  displays : c.screen.Displays c.editor.line

section

variable {c : Console} {i : Input}

/-- What is printed for a change of the line changes what is displayed. -/
theorem Screen.Displays.renders {s : Screen} {line line' printed : List U8}
    (h : s.Displays line) (hr : Renders line line' printed)
    (hl : line'.length ≤ screenSize - screenWidth) :
    (Shell.printChars printed s).Displays line' := by
  obtain ⟨kept, erased, added, rfl, rfl, rfl, hplain⟩ := hr
  have hlen : (kept ++ added).length = kept.length + added.length := List.length_append
  have hboth : Shell.printChars (List.replicate erased.length 8#8 ++ added) s =
      Shell.printChars added (Shell.printChars (List.replicate erased.length 8#8) s) :=
    List.foldl_append
  rw [hboth]
  exact h.erase.printChars hplain (by omega)

/-- The console that `shell_start` begins with. -/
theorem Console.start_shows (s : Screen) (boot path : List ScreenOp) :
    (Console.start s boot path).Shows := by
  refine ⟨Editor.start_safe, Editor.start_plain, ?_⟩
  have htidy := (clearScreen_tidy 0#8 s).runOps (boot ++
    .printText (chars "\nWelcome to zSlash.\nType 'help' for a list of commands.\n") ::
      promptOps path)
  exact htidy.displays_nil

/-- Each key is processed, and the screen displays the line after it. -/
theorem Console.Shows.key (h : c.Shows) (i : Input) : ∃ c', c.key i = some c' ∧ c'.Shows := by
  obtain ⟨r, hrun, hsafe⟩ : Safely (processKey i.commands i.key c.editor) := h.safe.processKey
  obtain ⟨hplain, hline⟩ := h.plain.processKey h.safe hrun
  refine ⟨_, by rw [Console.key, hrun, Option.map_some], hsafe, hplain, ?_⟩
  dsimp only
  by_cases hnewline : i.key = 10#8
  · rw [if_pos hnewline] at hline ⊢
    rw [hline]
    exact (h.displays.toTidy.runOps _).displays_nil
  · rw [if_neg hnewline] at hline ⊢
    refine h.displays.renders hline ?_
    have hidx := hsafe.idx_le
    have hsize : screenSize = 2000 := rfl
    have hwidth : screenWidth = 80 := rfl
    rw [Editor.length_line]
    bv_omega

/-- A sequence of keys. -/
theorem Console.Shows.keys (h : c.Shows) (is : List Input) :
    ∃ c', Console.keys is c = some c' ∧ c'.Shows := by
  induction is generalizing c with
  | nil => exact ⟨c, rfl, h⟩
  | cons i is ih =>
    obtain ⟨c₁, hkey, hshows⟩ := h.key i
    obtain ⟨c₂, hkeys, hend⟩ := ih hshows
    exact ⟨c₂, by rw [Console.keys, hkey, Option.bind_some, hkeys], hend⟩

end

/-- The screen shows what will be executed. Whatever keys arrive at the shell, whatever the commands
leave in the line and print and was printed before, after every key the `idx` cells in front of the
cursor hold the characters of the line, and every cell from the cursor on holds a space. -/
theorem screen_shows_line (s : Screen) (boot path : List ScreenOp) (is : List Input) :
    ∃ c, Console.keys is (.start s boot path) = some c ∧
      c.editor.idx.toNat ≤ c.screen.cursorIndex ∧
      (∀ j < c.editor.idx.toNat,
        charOf (c.screen.cells (c.screen.cursorIndex - c.editor.idx.toNat + j)) =
          c.editor.shellBuffer (BitVec.ofNat 32 j)) ∧
      ∀ i, c.screen.cursorIndex ≤ i → i < screenSize → charOf (c.screen.cells i) = 0x20#8 := by
  obtain ⟨c, hkeys, hshows⟩ := (Console.start_shows s boot path).keys is
  obtain ⟨htidy, hle, hshown⟩ := hshows.displays
  rw [Editor.length_line] at hle
  refine ⟨c, hkeys, hle, fun j hj => ?_, htidy.blank⟩
  rw [← Editor.length_line, hshown j (by rwa [Editor.length_line])]
  simp [Editor.line, Line.chars]

end AlderKernel.Shell
