import AlderKernel.Shell.ScreenPage

/-!
# The colour of the text

A character is printed with the attribute `WHITE`, in the cell at the cursor. The cell moves up when
the screen scrolls, until it is overwritten or leaves the screen. A character from 0x80 on is
negative, so its sign fills the half of the cell that the attribute belongs to.
-/

namespace AlderKernel.Shell

open Machine

/-- The attribute of a cell, in its high half. -/
def attributeOf (cell : BitVec 16) : BitVec 16 := cell >>> 8

/-- A character on its way to the screen, from `print_text` or from `print_char`. -/
structure PrintedChar where
  char : U8
  ofText : Bool

/-- The characters that a call prints, one after the other. -/
def PrintCall.characters (call : PrintCall) : List PrintedChar :=
  match call with
  | .char c => [⟨c, false⟩]
  | _ => call.printed.map fun c => ⟨c, true⟩

/-- The screen, and for each cell the character that it was last written for. -/
structure TracedScreen extends Screen where
  written : ℕ → Option U8

namespace TracedScreen

/-- A screen on which nothing has been printed yet. -/
def start (s : Screen) : TracedScreen := ⟨s, fun _ => none⟩

/-- `scroll_screen`: the cells move up by a row. -/
def scroll (t : TracedScreen) : TracedScreen where
  toScreen := scrollScreen t.toScreen
  written i :=
    if i < screenSize - screenWidth then t.written (i + screenWidth)
    else if i < screenSize then none
    else t.written i

/-- `advance_cursor`. -/
def advance (t : TracedScreen) : TracedScreen :=
  if screenSize ≤ t.cursorIndex then advance t.scroll else t
termination_by t.cursorIndex
decreasing_by
  have hsize : screenSize = 2000 := rfl
  have hwidth : screenWidth = 80 := rfl
  change t.cursorIndex - screenWidth < t.cursorIndex
  omega

/-- The start of the next row. -/
def newLine (t : TracedScreen) : TracedScreen :=
  advance { t with cursorIndex := (t.cursorIndex / screenWidth + 1) * screenWidth }

/-- A character at the cursor. -/
def put (c : U8) (t : TracedScreen) : TracedScreen :=
  advance ⟨⟨Function.update t.cells t.cursorIndex (cellOf c), t.cursorIndex + 1⟩,
    Function.update t.written t.cursorIndex (some c)⟩

/-- The blank that a backspace leaves in front of the cursor. -/
def erase (t : TracedScreen) : TracedScreen :=
  if 0 < t.cursorIndex then
    ⟨⟨Function.update t.cells (t.cursorIndex - 1) (cellOf 0x20#8), t.cursorIndex - 1⟩,
      Function.update t.written (t.cursorIndex - 1) none⟩
  else t

/-- One turn of the loop of `print_text`, or `print_char`. -/
def print (t : TracedScreen) (c : PrintedChar) : TracedScreen :=
  if c.char = 10#8 then t.newLine else
  if c.char = 8#8 ∧ c.ofText = false then t.erase
  else t.put c.char

/-- Characters one after the other. -/
def printAll (cs : List PrintedChar) (t : TracedScreen) : TracedScreen := cs.foldl print t

/-- Each cell that was written for a character holds that character and `WHITE`. -/
def KeepsColor (t : TracedScreen) : Prop :=
  ∀ i c, t.written i = some c → charOf (t.cells i) = c ∧ attributeOf (t.cells i) = white

variable {t : TracedScreen} {c : U8}

/-! ### The screen below -/

/-- Scrolling the traced screen scrolls the screen. -/
theorem advance_toScreen (t : TracedScreen) : t.advance.toScreen = advanceCursor t.toScreen := by
  induction t using advance.induct with
  | case1 t hge ih =>
    rw [advance, if_pos hge, advanceCursor, if_pos hge]
    exact ih
  | case2 t hlt => rw [advance, if_neg hlt, advanceCursor, if_neg hlt]

/-- A character of `print_text`. -/
theorem print_text_toScreen (t : TracedScreen) (c : U8) : (t.print ⟨c, true⟩).toScreen =
    if c = 10#8 then Shell.newLine t.toScreen else putChar c t.toScreen := by
  have hback : ¬ (c = 8#8 ∧ true = false) := by simp
  unfold print
  rw [if_neg hback]
  split_ifs
  · exact advance_toScreen _
  · exact advance_toScreen _

/-- A character of `print_char`. -/
theorem print_char_toScreen (t : TracedScreen) (c : U8) :
    (t.print ⟨c, false⟩).toScreen = printChar c t.toScreen := by
  unfold print printChar erase
  simp only [and_true]
  split_ifs
  · exact advance_toScreen _
  · rfl
  · rfl
  · exact advance_toScreen _

/-- Printing text on the traced screen prints it on the screen. -/
theorem printAll_text_toScreen (str : List U8) (t : TracedScreen) :
    (printAll (str.map fun c => ⟨c, true⟩) t).toScreen = printText str t.toScreen := by
  induction str generalizing t with
  | nil => rfl
  | cons c str ih =>
    rw [printText, ← print_text_toScreen]
    exact ih _

/-- Printing the characters of a call does to the screen what the call does. -/
theorem printAll_characters (call : PrintCall) (t : TracedScreen) :
    (printAll call.characters t).toScreen = call.run t.toScreen := by
  cases call with
  | char c => exact print_char_toScreen t c
  | text str => exact printAll_text_toScreen str t
  | uint n =>
    have huint : PrintCall.uint n ≠ .char 8#8 := by simp
    rw [(PrintCall.run_eq huint t.toScreen).1]
    exact printAll_text_toScreen _ t
  | hex n =>
    have hhex : PrintCall.hex n ≠ .char 8#8 := by simp
    rw [(PrintCall.run_eq hhex t.toScreen).1]
    exact printAll_text_toScreen _ t

/-- Printing the characters of calls does to the screen what the calls do. -/
theorem printAll_calls (calls : List PrintCall) (t : TracedScreen) :
    (printAll (calls.flatMap PrintCall.characters) t).toScreen = runCalls calls t.toScreen := by
  induction calls generalizing t with
  | nil => rfl
  | cons call calls ih =>
    have hcall := printAll_characters call t
    have hrest := ih (printAll call.characters t)
    rw [hcall] at hrest
    rw [List.flatMap_cons, printAll, List.foldl_append]
    exact hrest

/-! ### What the cells hold -/

/-- The sign of the character takes the place of the attribute. -/
theorem attributeOf_cellOf (c : U8) : attributeOf (cellOf c) = white ↔ c < 0x80#8 := by
  decide +revert

/-- Scrolling takes a cell along with its character. -/
theorem KeepsColor.scroll (h : t.KeepsColor) : t.scroll.KeepsColor := by
  intro i c hi
  change (if i < screenSize - screenWidth then t.written (i + screenWidth)
    else if i < screenSize then none else t.written i) = some c at hi
  change charOf (if i < screenSize - screenWidth then t.cells (i + screenWidth)
      else if i < screenSize then cellOf 0x20#8 else t.cells i) = c ∧
    attributeOf (if i < screenSize - screenWidth then t.cells (i + screenWidth)
      else if i < screenSize then cellOf 0x20#8 else t.cells i) = white
  by_cases hrow : i < screenSize - screenWidth
  · rw [if_pos hrow] at hi
    rw [if_pos hrow]
    exact h _ c hi
  · rw [if_neg hrow] at hi
    rw [if_neg hrow]
    by_cases hlast : i < screenSize
    · rw [if_pos hlast] at hi
      exact absurd hi (by simp)
    · rw [if_neg hlast] at hi
      rw [if_neg hlast]
      exact h i c hi

/-- Scrolling keeps the color. -/
theorem KeepsColor.advance (h : t.KeepsColor) : t.advance.KeepsColor := by
  induction t using advance.induct with
  | case1 t hge ih =>
    rw [TracedScreen.advance, if_pos hge]
    exact ih h.scroll
  | case2 t hlt =>
    rw [TracedScreen.advance, if_neg hlt]
    exact h

/-- A character below 0x80 is written with `WHITE`. -/
theorem KeepsColor.put (h : t.KeepsColor) (hc : c < 0x80#8) : (t.put c).KeepsColor := by
  apply KeepsColor.advance
  intro i c' hi
  dsimp only at hi ⊢
  by_cases hcell : i = t.cursorIndex
  · rw [hcell, Function.update_self] at hi
    obtain rfl := Option.some.inj hi
    rw [hcell, Function.update_self]
    exact ⟨charOf_cellOf c, (attributeOf_cellOf c).mpr hc⟩
  · rw [Function.update_of_ne hcell] at hi ⊢
    exact h i c' hi

/-- Erasing a character keeps the color. -/
theorem KeepsColor.erase (h : t.KeepsColor) : t.erase.KeepsColor := by
  unfold TracedScreen.erase
  split_ifs
  · intro i c hi
    dsimp only at hi ⊢
    by_cases hcell : i = t.cursorIndex - 1
    · rw [hcell, Function.update_self] at hi
      exact absurd hi (by simp)
    · rw [Function.update_of_ne hcell] at hi ⊢
      exact h i c hi
  · exact h

/-- One character keeps the colours. -/
theorem KeepsColor.print {ch : PrintedChar} (h : t.KeepsColor) (hc : ch.char < 0x80#8) :
    (t.print ch).KeepsColor := by
  unfold TracedScreen.print
  split_ifs
  · exact KeepsColor.advance h
  · exact h.erase
  · exact h.put hc

/-- Printing ASCII characters keeps the color. -/
theorem KeepsColor.printAll {cs : List PrintedChar} (h : t.KeepsColor)
    (hcs : ∀ ch ∈ cs, ch.char < 0x80#8) : (printAll cs t).KeepsColor := by
  induction cs generalizing t with
  | nil => exact h
  | cons ch cs ih =>
    exact ih (h.print (hcs ch (.head _))) fun ch' hch' => hcs ch' (.tail _ hch')

/-! ### Characters that lose the colour -/

/-- Nothing is scrolled while the cursor is on the screen. -/
theorem advance_of_lt (h : t.cursorIndex < screenSize) : t.advance = t := by
  rw [advance, if_neg (Nat.not_le.mpr h)]

/-- One row behind the screen, the screen scrolls once. -/
theorem advance_of_ge (h : screenSize ≤ t.cursorIndex)
    (h' : t.cursorIndex < screenSize + screenWidth) : t.advance = t.scroll := by
  have hsize : screenSize = 2000 := rfl
  have hlt : t.scroll.cursorIndex < screenSize := by
    change t.cursorIndex - screenWidth < screenSize
    omega
  rw [advance, if_pos h, advance_of_lt hlt]

/-- The cursor ends on the screen. -/
theorem advance_cursor_lt (t : TracedScreen) : t.advance.cursorIndex < screenSize := by
  induction t using advance.induct with
  | case1 t hge ih => rwa [advance, if_pos hge]
  | case2 t hlt =>
    rw [advance, if_neg hlt]
    exact Nat.not_le.mp hlt

/-- After a character the cursor is on the screen. -/
theorem print_cursor_lt {ch : PrintedChar} (h : t.cursorIndex < screenSize) :
    (t.print ch).cursorIndex < screenSize := by
  unfold print
  split_ifs
  · exact advance_cursor_lt _
  · unfold erase
    split_ifs
    · dsimp only
      omega
    · exact h
  · exact advance_cursor_lt _

/-- After several characters the cursor is on the screen. -/
theorem printAll_cursor_lt (cs : List PrintedChar) (h : t.cursorIndex < screenSize) :
    (printAll cs t).cursorIndex < screenSize := by
  induction cs generalizing t with
  | nil => exact h
  | cons ch cs ih => exact ih (print_cursor_lt h)

/-- A character from 0x80 on is written with another attribute. -/
theorem not_keepsColor_put (h : t.cursorIndex < screenSize) (hc : ¬ c < 0x80#8) :
    ¬ (t.put c).KeepsColor := by
  have hsize : screenSize = 2000 := rfl
  have hwidth : screenWidth = 80 := rfl
  have hlost : ¬ attributeOf (cellOf c) = white := mt (attributeOf_cellOf c).mp hc
  unfold put
  intro hkeeps
  rcases Nat.lt_or_ge (t.cursorIndex + 1) screenSize with hlt | hge
  · rw [advance_of_lt hlt] at hkeeps
    have hcell := hkeeps t.cursorIndex c (Function.update_self ..)
    dsimp only at hcell
    rw [Function.update_self] at hcell
    exact hlost hcell.2
  · -- The character stands at the end of the last row, which moves up.
    rw [advance_of_ge hge (by dsimp only; omega)] at hkeeps
    have hrow : t.cursorIndex - screenWidth < screenSize - screenWidth := by omega
    have hback : t.cursorIndex - screenWidth + screenWidth = t.cursorIndex := by omega
    have hcell := hkeeps (t.cursorIndex - screenWidth) c (by
      unfold scroll
      dsimp only
      rw [if_pos hrow, hback, Function.update_self])
    unfold scroll scrollScreen at hcell
    dsimp only at hcell
    rw [if_pos hrow, hback, Function.update_self] at hcell
    exact hlost hcell.2

end TracedScreen

/-- From this screen on, after each character that the calls print, every cell that was written for
one of them holds it with `WHITE`. -/
def TextKeepsColor (s : Screen) (calls : List PrintCall) : Prop :=
  ∀ printed, printed <+: calls.flatMap PrintCall.characters →
    (TracedScreen.printAll printed (.start s)).KeepsColor

/-- The characters of a call are what it prints. -/
theorem PrintCall.map_char_characters (call : PrintCall) :
    call.characters.map PrintedChar.char = call.printed := by
  cases call <;> simp [characters, printed, Function.comp_def]

/-- Text keeps its colour. For every sequence of calls that print, on a screen with the cursor on
it, each cell holds the character that it was written for with the attribute `WHITE`, also after the
screen has scrolled, if and only if all characters are below 0x80. -/
theorem text_keepsColor_iff {s : Screen} (hs : s.cursorIndex < screenSize)
    (calls : List PrintCall) :
    (TracedScreen.printAll (calls.flatMap PrintCall.characters) (.start s)).toScreen =
        runCalls calls s ∧
      (TextKeepsColor s calls ↔ ∀ c ∈ calls.flatMap PrintCall.printed, c < 0x80#8) := by
  have hprinted : calls.flatMap PrintCall.printed =
      (calls.flatMap PrintCall.characters).map PrintedChar.char := by
    rw [List.map_flatMap]
    exact congrArg (calls.flatMap ·) (funext fun call => call.map_char_characters.symm)
  refine ⟨TracedScreen.printAll_calls calls _, ?_⟩
  rw [hprinted, List.forall_mem_map]
  constructor
  · intro hkeeps ch hch
    by_contra hbyte
    obtain ⟨before, after, hsplit⟩ := List.append_of_mem hch
    have hfirst : before ++ [ch] <+: calls.flatMap PrintCall.characters :=
      ⟨after, by rw [hsplit, List.append_assoc, List.singleton_append]⟩
    have hlast := hkeeps _ hfirst
    have hother : ch.char ≠ 10#8 ∧ ¬ (ch.char = 8#8 ∧ ch.ofText = false) := by
      constructor
      · intro heq
        exact hbyte (heq ▸ by decide)
      · rintro ⟨heq, -⟩
        exact hbyte (heq ▸ by decide)
    rw [TracedScreen.printAll, List.foldl_append, List.foldl_cons, List.foldl_nil,
      TracedScreen.print, if_neg hother.1, if_neg hother.2] at hlast
    exact TracedScreen.not_keepsColor_put (TracedScreen.printAll_cursor_lt before hs) hbyte hlast
  · intro hbytes printed hfirst
    have hstart : (TracedScreen.start s).KeepsColor := fun i c hi => absurd hi (by
      simp [TracedScreen.start])
    exact hstart.printAll fun ch hch => hbytes ch (hfirst.subset hch)

/-- A line of letters. -/
theorem letters_keepColor :
    TextKeepsColor ⟨fun _ => 0#16, 0⟩ [.text [0x48#8, 0x69#8, 0x0A#8], .char 0x21#8] :=
  (text_keepsColor_iff (by decide) _).2.mpr (by decide)

/-- A file with the single byte 0xE9 is shown in other colours. -/
theorem accented_not_keepsColor : ¬ TextKeepsColor ⟨fun _ => 0#16, 0⟩ [.text [0xE9#8]] := by
  intro hkeeps
  have hput := hkeeps [⟨0xE9#8, true⟩] (List.prefix_refl _)
  have hcursor : (TracedScreen.start ⟨fun _ => 0#16, 0⟩).cursorIndex < screenSize := by decide
  exact TracedScreen.not_keepsColor_put hcursor (by decide) hput

end AlderKernel.Shell
