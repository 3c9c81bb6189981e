import AlderKernel.Machine.Memory

/-!
# The text screen

`kernel/print.c` on the 80 by 25 cells of the video memory, and `clear_screen` of
`kernel/main.c`. A cell holds a character and its colours. What was printed last stands in
the cells in front of the cursor, also across the end of a row and when the screen scrolls, and
everything behind the cursor is blank. The position of the hardware cursor is left out.
-/

namespace AlderKernel.Shell

open Machine

/-- `SCREEN_WIDTH`. -/
def screenWidth : ℕ := 80

/-- `SCREEN_SIZE`. -/
def screenSize : ℕ := 2000

/-- `WHITE`. -/
def white : BitVec 16 := 0x0F#16

/-- The video memory and `cursor_index`. -/
structure Screen where
  cells : ℕ → BitVec 16
  cursorIndex : ℕ

/-- `c | (WHITE << 8)`, for a signed character. -/
def cellOf (c : U8) : BitVec 16 := c.signExtend 16 ||| white <<< 8

/-- The character of a cell. -/
def charOf (cell : BitVec 16) : U8 := cell.setWidth 8

/-- `scroll_screen`. -/
def scrollScreen (s : Screen) : Screen where
  cells i :=
    if i < screenSize - screenWidth then s.cells (i + screenWidth)
    else if i < screenSize then cellOf 0x20#8
    else s.cells i
  cursorIndex := s.cursorIndex - screenWidth

/-- `advance_cursor`. -/
def advanceCursor (s : Screen) : Screen :=
  if screenSize ≤ s.cursorIndex then advanceCursor (scrollScreen s) else s
termination_by s.cursorIndex
decreasing_by
  have hsize : screenSize = 2000 := rfl
  have hwidth : screenWidth = 80 := rfl
  change s.cursorIndex - screenWidth < s.cursorIndex
  omega

/-- The start of the next row. -/
def newLine (s : Screen) : Screen :=
  advanceCursor { s with cursorIndex := (s.cursorIndex / screenWidth + 1) * screenWidth }

/-- A character at the cursor. -/
def putChar (c : U8) (s : Screen) : Screen :=
  advanceCursor ⟨Function.update s.cells s.cursorIndex (cellOf c), s.cursorIndex + 1⟩

/-- `print_char`. -/
def printChar (c : U8) (s : Screen) : Screen :=
  if c = 10#8 then newLine s else
  if c = 8#8 then
    if 0 < s.cursorIndex then
      ⟨Function.update s.cells (s.cursorIndex - 1) (cellOf 0x20#8), s.cursorIndex - 1⟩
    else s
  else putChar c s

/-- `print_text`, for the characters in front of the `'\0'`. A backspace is a character here. -/
def printText : List U8 → Screen → Screen
  | [], s => s
  | c :: str, s => printText str (if c = 10#8 then newLine s else putChar c s)

/-- `clear_screen`. -/
def clearScreen (color : U8) (s : Screen) : Screen where
  cells i := if i < screenSize then 0x20#16 ||| color.setWidth 16 <<< 8 else s.cells i
  cursorIndex := 0

/-- What the kernel does to the screen. -/
inductive ScreenOp where
  | printChar (c : U8)
  | printText (str : List U8)
  | clearScreen (color : U8)

/-- One call. -/
def ScreenOp.run : ScreenOp → Screen → Screen
  | .printChar c, s => Shell.printChar c s
  | .printText str, s => Shell.printText str s
  | .clearScreen color, s => Shell.clearScreen color s

/-- Calls one after the other. -/
def runOps (ops : List ScreenOp) (s : Screen) : Screen := ops.foldl (fun s op => op.run s) s

/-- `print_char` for each character. -/
def printChars (l : List U8) (s : Screen) : Screen := l.foldl (fun s c => printChar c s) s

/-- The cursor is on the screen, and from there on the screen is blank. -/
structure Screen.Tidy (s : Screen) : Prop where
  cursor_lt : s.cursorIndex < screenSize
  blank : ∀ i, s.cursorIndex ≤ i → i < screenSize → charOf (s.cells i) = 0x20#8

/-- The characters stand in front of the cursor, and behind it the screen is blank. -/
structure Screen.Displays (s : Screen) (l : List U8) : Prop extends s.Tidy where
  length_le : l.length ≤ s.cursorIndex
  shown : ∀ j (hj : j < l.length), charOf (s.cells (s.cursorIndex - l.length + j)) = l[j]

/-- A character of a line, neither a newline nor a backspace. -/
def PlainChar (c : U8) : Prop := c ≠ 8#8 ∧ c ≠ 10#8

section

variable {s : Screen} {l l' : List U8} {c : U8}

/-- The character of a cell is the one that was put there. -/
@[simp] theorem charOf_cellOf (c : U8) : charOf (cellOf c) = c := by
  unfold charOf cellOf white
  ext k hk
  simp
  grind

/-- The cursor stays where it is on the screen. -/
theorem advanceCursor_of_lt (h : s.cursorIndex < screenSize) : advanceCursor s = s := by
  rw [advanceCursor, if_neg (Nat.not_le.mpr h)]

/-- One row behind the screen, the screen scrolls once. -/
theorem advanceCursor_of_ge (h : screenSize ≤ s.cursorIndex)
    (h' : s.cursorIndex < screenSize + screenWidth) : advanceCursor s = scrollScreen s := by
  have hsize : screenSize = 2000 := rfl
  have hlt : (scrollScreen s).cursorIndex < screenSize := by
    change s.cursorIndex - screenWidth < screenSize
    omega
  rw [advanceCursor, if_pos h, advanceCursor_of_lt hlt]

/-- Moving the cursor on keeps the blank part, which starts at the cursor or before. -/
theorem Screen.Tidy.advance (h : s.cursorIndex < screenSize + screenWidth)
    (hblank : ∀ i, s.cursorIndex ≤ i → i < screenSize → charOf (s.cells i) = 0x20#8) :
    (advanceCursor s).Tidy := by
  have hsize : screenSize = 2000 := rfl
  have hwidth : screenWidth = 80 := rfl
  by_cases hlt : s.cursorIndex < screenSize
  · rw [advanceCursor_of_lt hlt]
    exact ⟨hlt, hblank⟩
  · rw [advanceCursor_of_ge (Nat.not_lt.mp hlt) h]
    refine ⟨?_, fun i hi hi' => ?_⟩
    · change s.cursorIndex - screenWidth < screenSize
      omega
    · have hrow : screenSize - screenWidth ≤ i := by
        change s.cursorIndex - screenWidth ≤ i at hi
        omega
      change charOf (if i < screenSize - screenWidth then s.cells (i + screenWidth)
        else if i < screenSize then cellOf 0x20#8 else s.cells i) = 0x20#8
      rw [if_neg (Nat.not_lt.mpr hrow), if_pos hi', charOf_cellOf]

/-- A new line keeps the screen tidy. -/
theorem Screen.Tidy.newLine (h : s.Tidy) : (newLine s).Tidy := by
  have hcursor := h.cursor_lt
  have hsize : screenSize = 2000 := rfl
  have hwidth : screenWidth = 80 := rfl
  refine Tidy.advance ?_ fun i hi hi' => h.blank i ?_ hi'
  · dsimp only
    rw [hwidth]
    omega
  · dsimp only at hi
    rw [hwidth] at hi
    omega

/-- A character in a cell keeps the screen tidy. -/
theorem Screen.Tidy.putChar (h : s.Tidy) : (putChar c s).Tidy := by
  have hcursor := h.cursor_lt
  have hwidth : screenWidth = 80 := rfl
  refine Tidy.advance ?_ fun i hi hi' => ?_
  · dsimp only
    omega
  · dsimp only at hi ⊢
    rw [Function.update_of_ne (by omega)]
    exact h.blank i (by omega) hi'

/-- A printed character keeps the screen tidy. -/
theorem Screen.Tidy.printChar (h : s.Tidy) : (printChar c s).Tidy := by
  unfold Shell.printChar
  split_ifs with hnewline hback hpos
  · exact h.newLine
  · have hcursor := h.cursor_lt
    refine ⟨?_, fun i hi hi' => ?_⟩
    · dsimp only
      omega
    · dsimp only at hi ⊢
      by_cases hlast : i = s.cursorIndex - 1
      · rw [hlast, Function.update_self, charOf_cellOf]
      · rw [Function.update_of_ne hlast]
        exact h.blank i (by omega) hi'
  · exact h
  · exact h.putChar

/-- A printed text keeps the screen tidy. -/
theorem Screen.Tidy.printText (str : List U8) (h : s.Tidy) : (printText str s).Tidy := by
  induction str generalizing s with
  | nil => exact h
  | cons c str ih =>
    refine ih ?_
    split_ifs
    · exact h.newLine
    · exact h.putChar

/-- Clearing the screen makes it tidy. -/
theorem clearScreen_tidy (color : U8) (s : Screen) : (clearScreen color s).Tidy := by
  have hzero : 0 < screenSize := by decide
  refine ⟨hzero, fun i _ hi => ?_⟩
  change charOf (if i < screenSize then 0x20#16 ||| color.setWidth 16 <<< 8 else s.cells i) = 0x20#8
  rw [if_pos hi]
  unfold charOf
  ext k hk
  simp

/-- Whatever is printed, the screen stays tidy. -/
theorem Screen.Tidy.runOps (ops : List ScreenOp) (h : s.Tidy) : (runOps ops s).Tidy := by
  induction ops generalizing s with
  | nil => exact h
  | cons op ops ih =>
    refine ih ?_
    cases op with
    | printChar c => exact h.printChar
    | printText str => exact h.printText str
    | clearScreen color => exact clearScreen_tidy color s

/-- A tidy screen displays the empty line. -/
theorem Screen.Tidy.displays_nil (h : s.Tidy) : s.Displays [] :=
  ⟨h, Nat.zero_le _, fun j hj => absurd hj (Nat.not_lt_zero j)⟩

/-- A character that is printed extends what is displayed. -/
theorem Screen.Displays.printChar (h : s.Displays l) (hc : PlainChar c)
    (hl : l.length < screenSize - screenWidth) : (Shell.printChar c s).Displays (l ++ [c]) := by
  have hcursor := h.cursor_lt
  have hle := h.length_le
  have hsize : screenSize = 2000 := rfl
  have hwidth : screenWidth = 80 := rfl
  have hlen : (l ++ [c]).length = l.length + 1 := List.length_append
  have hput : Shell.printChar c s = Shell.putChar c s := by
    unfold Shell.printChar
    rw [if_neg hc.2, if_neg hc.1]
  -- The cells in front of the new cursor, before the screen scrolls.
  have hshown (j : ℕ) (hj : j < (l ++ [c]).length) :
      charOf (Function.update s.cells s.cursorIndex (cellOf c) (s.cursorIndex - l.length + j)) =
        (l ++ [c])[j] := by
    by_cases hlast : j = l.length
    · subst hlast
      rw [Nat.sub_add_cancel hle, Function.update_self, charOf_cellOf,
        List.getElem_concat_length rfl]
    · have hlt : j < l.length := by omega
      rw [Function.update_of_ne (by omega), h.shown j hlt, List.getElem_append_left hlt]
  have htidy : (Shell.putChar c s).Tidy := h.toTidy.putChar
  rw [hput]
  refine ⟨htidy, ?_, ?_⟩
  all_goals unfold Shell.putChar
  all_goals rcases Nat.lt_or_ge (s.cursorIndex + 1) screenSize with hlt | hge
  · rw [advanceCursor_of_lt hlt, hlen]
    dsimp only
    omega
  · rw [advanceCursor_of_ge hge (by dsimp only; omega), hlen]
    change l.length + 1 ≤ s.cursorIndex + 1 - screenWidth
    omega
  · intro j hj
    rw [advanceCursor_of_lt hlt]
    dsimp only
    rw [show s.cursorIndex + 1 - (l ++ [c]).length + j = s.cursorIndex - l.length + j by omega]
    exact hshown j hj
  · intro j hj
    rw [advanceCursor_of_ge hge (by dsimp only; omega)]
    have hrow : s.cursorIndex + 1 - screenWidth - (l ++ [c]).length + j <
        screenSize - screenWidth := by omega
    change charOf (if s.cursorIndex + 1 - screenWidth - (l ++ [c]).length + j <
        screenSize - screenWidth then
      Function.update s.cells s.cursorIndex (cellOf c)
        (s.cursorIndex + 1 - screenWidth - (l ++ [c]).length + j + screenWidth) else _) = _
    rw [if_pos hrow, show s.cursorIndex + 1 - screenWidth - (l ++ [c]).length + j + screenWidth =
      s.cursorIndex - l.length + j by omega]
    exact hshown j hj

/-- A backspace takes the last character away. -/
theorem Screen.Displays.backspace (h : s.Displays (l ++ [c])) :
    (Shell.printChar 8#8 s).Displays l := by
  have hle := h.length_le
  have hlen : (l ++ [c]).length = l.length + 1 := List.length_append
  have hback : Shell.printChar 8#8 s =
      ⟨Function.update s.cells (s.cursorIndex - 1) (cellOf 0x20#8), s.cursorIndex - 1⟩ := by
    unfold Shell.printChar
    rw [if_neg (by decide), if_pos rfl, if_pos (by omega)]
  have htidy : (Shell.printChar 8#8 s).Tidy := h.toTidy.printChar
  refine ⟨htidy, ?_, fun j hj => ?_⟩
  · rw [hback]
    dsimp only
    omega
  · have hold := h.shown j (by omega)
    rw [List.getElem_append_left hj] at hold
    rw [hback]
    dsimp only
    rw [Function.update_of_ne (by omega), ← hold]
    congr 2
    omega

/-- Printing more characters. -/
theorem Screen.Displays.printChars (h : s.Displays l) (hplain : ∀ c ∈ l', PlainChar c)
    (hl : l.length + l'.length ≤ screenSize - screenWidth) :
    (printChars l' s).Displays (l ++ l') := by
  induction l' generalizing s l with
  | nil => simpa [Shell.printChars] using h
  | cons c l' ih =>
    have hlen : (c :: l').length = l'.length + 1 := rfl
    have hfirst := h.printChar (hplain c (.head _)) (by omega)
    have hrest := ih hfirst (fun c hc => hplain c (.tail _ hc)) (by
      rw [List.length_append, List.length_singleton]
      omega)
    rwa [List.append_assoc, List.singleton_append] at hrest

/-- Erasing as many characters as stand behind a part of the line. -/
theorem Screen.Displays.erase (h : s.Displays (l ++ l')) :
    (Shell.printChars (List.replicate l'.length 8#8) s).Displays l := by
  induction l' using List.reverseRecOn generalizing s with
  | nil => simpa [Shell.printChars] using h
  | append_singleton l' c ih =>
    rw [← List.append_assoc] at h
    rw [List.length_append, List.length_singleton, List.replicate_succ]
    exact ih h.backspace

end

end AlderKernel.Shell
