import AlderKernel.Drivers.Ps2
import AlderKernel.Order.Page
import AlderKernel.Shell.Screen

/-!
# The screen as the end of a page

What `print_text`, `print_char`, `print_uint` and `print_hex` print after `clear_screen` makes up an
endless page with 80 columns. The screen is its last 25 rows, and no cell outside the screen is
written.
-/

namespace AlderKernel.Shell

open Machine Drivers

/-- `SCREEN_HEIGHT`. -/
def screenHeight : ℕ := 25

/-! ### The cells that are written -/

/-- The cells that `advance_cursor` writes; `scroll_screen` writes each cell of the screen. -/
def advanceCursorWrites (s : Screen) : List ℕ :=
  if screenSize ≤ s.cursorIndex then
    List.range screenSize ++ advanceCursorWrites (scrollScreen s)
  else []
termination_by s.cursorIndex
decreasing_by
  have hsize : screenSize = 2000 := rfl
  have hwidth : screenWidth = 80 := rfl
  change s.cursorIndex - screenWidth < s.cursorIndex
  omega

/-- The cells that a newline writes. -/
def newLineWrites (s : Screen) : List ℕ :=
  advanceCursorWrites { s with cursorIndex := (s.cursorIndex / screenWidth + 1) * screenWidth }

/-- The cells that a character at the cursor writes. -/
def putCharWrites (c : U8) (s : Screen) : List ℕ :=
  s.cursorIndex ::
    advanceCursorWrites ⟨Function.update s.cells s.cursorIndex (cellOf c), s.cursorIndex + 1⟩

/-- The cells that `print_char` writes. -/
def printCharWrites (c : U8) (s : Screen) : List ℕ :=
  if c = 10#8 then newLineWrites s else
  if c = 8#8 then if 0 < s.cursorIndex then [s.cursorIndex - 1] else []
  else putCharWrites c s

/-- The cells that `print_text` writes. -/
def printTextWrites : List U8 → Screen → List ℕ
  | [], _ => []
  | c :: str, s =>
    if c = 10#8 then newLineWrites s ++ printTextWrites str (newLine s)
    else putCharWrites c s ++ printTextWrites str (putChar c s)

/-! ### Numbers -/

/-- The loop of `print_uint`, with `i` places left in `buf`. -/
def uintDigits : ℕ → U32 → List U8 → List U8
  | 0, _, buf => buf
  | i + 1, n, buf =>
    if n = 0#32 then buf
    else uintDigits i (n / 10#32) ((0x30#32 + n % 10#32).setWidth 8 :: buf)

/-- `print_uint`. -/
def printUint (n : U32) (s : Screen) : Screen :=
  if n = 0#32 then printChar 0x30#8 s else printText (uintDigits 10 n []) s

/-- The cells that `print_uint` writes. -/
def printUintWrites (n : U32) (s : Screen) : List ℕ :=
  if n = 0#32 then printCharWrites 0x30#8 s else printTextWrites (uintDigits 10 n []) s

/-- `hex_digits[i]`. -/
def hexDigit (i : ℕ) : U8 := (chars "0123456789ABCDEF").getD i 0#8

/-- The loop of `print_hex`, with `i` places left in `buf`. -/
def hexDigitsOf : ℕ → U32 → List U8 → List U8
  | 0, _, buf => buf
  | i + 1, n, buf => hexDigitsOf i (n >>> 4) (hexDigit (n &&& 0xF#32).toNat :: buf)

/-- `print_hex`. -/
def printHex (n : U32) (s : Screen) : Screen :=
  printText (hexDigitsOf 8 n []) (printText (chars "0x") s)

/-- The cells that `print_hex` writes. -/
def printHexWrites (n : U32) (s : Screen) : List ℕ :=
  printTextWrites (chars "0x") s ++ printTextWrites (hexDigitsOf 8 n []) (printText (chars "0x") s)

/-! ### The page -/

/-- A call that prints. -/
inductive PrintCall where
  | text (str : List U8)
  | char (c : U8)
  | uint (n : U32)
  | hex (n : U32)

/-- What a call does to the screen. -/
def PrintCall.run : PrintCall → Screen → Screen
  | .text str => printText str
  | .char c => printChar c
  | .uint n => printUint n
  | .hex n => printHex n

/-- The cells that a call writes. -/
def PrintCall.writes : PrintCall → Screen → List ℕ
  | .text str => printTextWrites str
  | .char c => printCharWrites c
  | .uint n => printUintWrites n
  | .hex n => printHexWrites n

/-- Calls one after the other. -/
def runCalls (calls : List PrintCall) (s : Screen) : Screen :=
  calls.foldl (fun s call => call.run s) s

/-- The cells that calls one after the other write. -/
def callsWrites : List PrintCall → Screen → List ℕ
  | [], _ => []
  | call :: calls, s => call.writes s ++ callsWrites calls (call.run s)

/-- The text of a number: its decimal digits. -/
def decimalText (n : ℕ) : List U8 :=
  if n = 0 then [0x30#8] else ((Nat.digits 10 n).map fun d => BitVec.ofNat 8 (0x30 + d)).reverse

/-- The text of a 32-bit number in base 16, with all its eight digits. -/
def hexText (n : ℕ) : List U8 :=
  chars "0x" ++ ((List.range 8).map fun k => hexDigit (n / 16 ^ k % 16)).reverse

/-- The text that a call stands for. -/
def PrintCall.printed : PrintCall → List U8
  | .text str => str
  | .char c => [c]
  | .uint n => decimalText n.toNat
  | .hex n => hexText n.toNat

/-- A character on a page with 80 columns: a newline goes to the start of the next row, and another
character fills one cell. -/
def placeChar (p : Page U8) (c : U8) : Page U8 :=
  if c = 10#8 then p.newRow else p.fill screenWidth c

/-- The page of a text. -/
def layout (text : List U8) : Page U8 := text.foldl placeChar (.empty 0x20#8)

/-- The screen is the end of a page. -/
structure Screen.EndOf (s : Screen) (p : Page U8) : Prop where
  wellFormed : p.WellFormed screenWidth 0x20#8
  shows : p.Shows screenWidth screenHeight (p.top screenHeight) (fun i => charOf (s.cells i))
    s.cursorIndex

section

variable {s : Screen} {p : Page U8} {c : U8} {i : ℕ}

/-! ### Printing numbers -/

/-- The loop of `print_uint` puts the decimal digits in front of what `buf` holds. -/
theorem uintDigits_eq (buf : List U8) {n : U32} (h : n.toNat < 10 ^ i) :
    uintDigits i n buf =
      ((Nat.digits 10 n.toNat).map fun d => BitVec.ofNat 8 (0x30 + d)).reverse ++ buf := by
  induction i generalizing n buf with
  | zero =>
    have hzero : n.toNat = 0 := by omega
    simp [uintDigits, hzero]
  | succ i ih =>
    unfold uintDigits
    by_cases hn : n = 0#32
    · simp [hn]
    · have hpos : 0 < n.toNat := by bv_omega
      have hdiv : (n / 10#32).toNat = n.toNat / 10 := BitVec.toNat_udiv
      have hdigit : (0x30#32 + n % 10#32).setWidth 8 = BitVec.ofNat 8 (0x30 + n.toNat % 10) := by
        apply BitVec.eq_of_toNat_eq
        rw [BitVec.toNat_setWidth, BitVec.toNat_add, BitVec.toNat_umod, BitVec.toNat_ofNat]
        change (0x30 + n.toNat % 10) % 2 ^ 32 % 2 ^ 8 = (0x30 + n.toNat % 10) % 2 ^ 8
        omega
      have hlt : (n / 10#32).toNat < 10 ^ i := by
        rw [hdiv]
        rw [Nat.pow_succ] at h
        omega
      rw [if_neg hn, ih _ hlt, hdiv, hdigit, Nat.digits_def' (by decide) hpos]
      simp

/-- The loop of `print_hex` puts the digits in base 16 in front of what `buf` holds. -/
theorem hexDigitsOf_eq (i : ℕ) (n : U32) (buf : List U8) : hexDigitsOf i n buf =
    ((List.range i).map fun k => hexDigit (n.toNat / 16 ^ k % 16)).reverse ++ buf := by
  induction i generalizing n buf with
  | zero => simp [hexDigitsOf]
  | succ i ih =>
    have hshift : (n >>> 4).toNat = n.toNat / 16 := by
      rw [BitVec.toNat_ushiftRight, Nat.shiftRight_eq_div_pow]
    have hmask : (n &&& 0xF#32).toNat = n.toNat % 16 := by
      rw [BitVec.toNat_and]
      exact Nat.and_two_pow_sub_one_eq_mod n.toNat 4
    have hdigit (k : ℕ) : n.toNat / 16 / 16 ^ k % 16 = n.toNat / 16 ^ (k + 1) % 16 := by
      rw [Nat.div_div_eq_div_mul, Nat.pow_succ, Nat.mul_comm]
    unfold hexDigitsOf
    rw [ih, hshift, hmask, List.range_succ_eq_map]
    simp [hdigit, Function.comp_def]

/-! ### Each call prints its text character by character -/

/-- A text is printed in two parts. -/
theorem printText_append (str str' : List U8) (s : Screen) :
    printText (str ++ str') s = printText str' (printText str s) := by
  induction str generalizing s with
  | nil => rfl
  | cons c str ih => simp [printText, ih]

/-- The writes for a text are those for its two parts. -/
theorem printTextWrites_append (str str' : List U8) (s : Screen) :
    printTextWrites (str ++ str') s =
      printTextWrites str s ++ printTextWrites str' (printText str s) := by
  induction str generalizing s with
  | nil => rfl
  | cons c str ih =>
    by_cases hnewline : c = 10#8 <;> simp [printTextWrites, printText, hnewline, ih]

/-- `print_char` is `print_text` of one character that is not a backspace. -/
theorem printChar_eq (hc : c ≠ 8#8) (s : Screen) :
    printChar c s = printText [c] s ∧ printCharWrites c s = printTextWrites [c] s := by
  by_cases hnewline : c = 10#8 <;>
    simp [printChar, printCharWrites, printText, printTextWrites, hnewline, hc]

/-- A call does and writes what `print_text` does and writes for its text. -/
theorem PrintCall.run_eq {call : PrintCall} (hcall : call ≠ .char 8#8) (s : Screen) :
    call.run s = printText call.printed s ∧ call.writes s = printTextWrites call.printed s := by
  cases call with
  | text str => exact ⟨rfl, rfl⟩
  | char c => exact printChar_eq (fun hc => hcall (by rw [hc])) s
  | uint n =>
    have hdigits := uintDigits_eq [] (n := n) (i := 10) (by have := n.isLt; omega)
    rw [List.append_nil] at hdigits
    by_cases hn : n = 0#32
    · have hchar := printChar_eq (c := 0x30#8) (by decide) s
      simpa [PrintCall.run, PrintCall.writes, PrintCall.printed, printUint, printUintWrites,
        decimalText, hn] using hchar
    · have hpos : n.toNat ≠ 0 := by bv_omega
      simp [PrintCall.run, PrintCall.writes, PrintCall.printed, printUint, printUintWrites,
        decimalText, hn, hpos, hdigits]
  | hex n =>
    have hdigits := hexDigitsOf_eq 8 n []
    rw [List.append_nil] at hdigits
    simp only [PrintCall.run, PrintCall.writes, PrintCall.printed, printHex, printHexWrites,
      hexText, hdigits, printText_append, printTextWrites_append, and_self]

/-- Calls do and write what `print_text` does and writes for their texts one behind the other. -/
theorem runCalls_eq {calls : List PrintCall} (hcalls : ∀ call ∈ calls, call ≠ .char 8#8)
    (s : Screen) : runCalls calls s = printText (calls.flatMap PrintCall.printed) s ∧
      callsWrites calls s = printTextWrites (calls.flatMap PrintCall.printed) s := by
  induction calls generalizing s with
  | nil => exact ⟨rfl, rfl⟩
  | cons call calls ih =>
    obtain ⟨hrun, hwrites⟩ := PrintCall.run_eq (hcalls call (.head _)) s
    obtain ⟨hruns, hwritten⟩ := ih (fun call hcall => hcalls call (.tail _ hcall)) (call.run s)
    rw [List.flatMap_cons, printText_append, printTextWrites_append, ← hrun, ← hwrites]
    exact ⟨hruns, congrArg (call.writes s ++ ·) hwritten⟩

/-! ### The cells that are written are on the screen -/

/-- Scrolling writes inside the screen. -/
theorem advanceCursorWrites_lt (s : Screen) (hi : i ∈ advanceCursorWrites s) : i < screenSize := by
  induction s using advanceCursorWrites.induct with
  | case1 s hge ih =>
    rw [advanceCursorWrites, if_pos hge] at hi
    rcases List.mem_append.mp hi with hrow | hrest
    · exact List.mem_range.mp hrow
    · exact ih hrest
  | case2 s hlt =>
    rw [advanceCursorWrites, if_neg hlt] at hi
    exact absurd hi List.not_mem_nil

/-- A printed text writes inside the screen. -/
theorem Screen.Tidy.writes_lt (str : List U8) (h : s.Tidy) (hi : i ∈ printTextWrites str s) :
    i < screenSize := by
  induction str generalizing s with
  | nil => exact absurd hi List.not_mem_nil
  | cons c str ih =>
    unfold printTextWrites at hi
    split_ifs at hi with hnewline
    · rcases List.mem_append.mp hi with hfirst | hrest
      · exact advanceCursorWrites_lt _ hfirst
      · exact ih h.newLine hrest
    · rcases List.mem_append.mp hi with hfirst | hrest
      · rcases List.mem_cons.mp hfirst with rfl | hscroll
        · exact h.cursor_lt
        · exact advanceCursorWrites_lt _ hscroll
      · exact ih h.putChar hrest

/-! ### The screen is the end of the page -/

/-- The cursor shows the next cell of the page, after it scrolled where that cell is behind the
window. -/
theorem Screen.EndOf.advance {t : ℕ} (hp : p.WellFormed screenWidth 0x20#8)
    (hs : p.Shows screenWidth screenHeight t (fun i => charOf (s.cells i)) s.cursorIndex)
    (hrow : p.row < t + screenHeight ∧ t = p.top screenHeight ∨
      p.row = t + screenHeight ∧ p.col = 0) : (advanceCursor s).EndOf p := by
  have hsize : screenSize = screenHeight * screenWidth := by decide
  rcases hrow with ⟨hrow, rfl⟩ | ⟨hrow, hcol⟩
  · have hlt := hs.cursor_lt hp.col_lt hrow
    rw [advanceCursor_of_lt (by rwa [hsize])]
    exact ⟨hp, hs⟩
  · have hge := hs.cursor_ge (Nat.le_of_eq hrow.symm)
    have hcursor := hs.cursor_eq
    rw [hrow, Nat.add_sub_cancel_left, hcol, ← hsize] at hcursor
    have htop : p.top screenHeight = t + 1 := by
      unfold Page.top screenHeight at *
      omega
    rw [advanceCursor_of_ge (by omega) (by have hwidth : screenWidth = 80 := rfl; omega)]
    refine ⟨hp, ?_⟩
    rw [htop]
    refine (hs.scroll hp (by decide) hrow hcol).congr fun i hi => ?_
    rw [← hsize] at hi
    change charOf (if i < screenSize - screenWidth then s.cells (i + screenWidth)
      else if i < screenSize then cellOf 0x20#8 else s.cells i) = _
    unfold Page.scrolled
    rw [← hsize, if_pos hi]
    by_cases hlast : i < screenSize - screenWidth
    · rw [if_pos hlast, if_pos (by omega)]
    · rw [if_neg hlast, if_neg (by omega), charOf_cellOf]

/-- A newline. -/
theorem Screen.EndOf.newLine (h : s.EndOf p) : (newLine s).EndOf p.newRow := by
  have hcol := h.wellFormed.col_lt
  have hdiv : s.cursorIndex / screenWidth = p.row - p.top screenHeight := by
    rw [h.shows.cursor_eq, Nat.add_comm, Nat.add_mul_div_right _ _ (by decide),
      Nat.div_eq_of_lt hcol, Nat.zero_add]
  apply advance h.wellFormed.newRow
  · dsimp only
    rw [hdiv]
    exact h.shows.newRow
  · simp only [Page.newRow, Page.top, screenHeight, and_true]
    omega

/-- A character that fills a cell. -/
theorem Screen.EndOf.putChar (h : s.EndOf p) : (putChar c s).EndOf (p.fill screenWidth c) := by
  have hcol := h.wellFormed.col_lt
  apply advance h.wellFormed.fill
  · have hfill := h.shows.fill h.wellFormed (a := c)
    refine hfill.congr fun i _ => ?_
    by_cases hi : i = s.cursorIndex
    · simp [hi]
    · simp [hi, Function.update_of_ne]
  · simp only [Page.fill, Page.top, screenHeight]
    split_ifs <;> omega

/-- Text continues the page. -/
theorem Screen.EndOf.printText (str : List U8) (h : s.EndOf p) :
    (printText str s).EndOf (str.foldl placeChar p) := by
  induction str generalizing s p with
  | nil => exact h
  | cons c str ih =>
    apply ih
    unfold placeChar
    split_ifs
    · exact h.newLine
    · exact h.putChar

/-- A cleared screen is the end of the empty page. -/
theorem clearScreen_endOf (color : U8) (s : Screen) :
    (clearScreen color s).EndOf (.empty 0x20#8) := by
  refine ⟨Page.empty_wellFormed _ (by decide), ⟨Nat.zero_le _, rfl, fun r hr c hc => ?_⟩⟩
  have hlt : r * screenWidth + c < screenHeight * screenWidth := Page.index_lt hr hc
  exact (clearScreen_tidy color s).blank _ (Nat.zero_le _) hlt

end

/-- The screen is the tail window of an endless page. After `clear_screen` and any calls that print,
without `print_char` of a backspace, the cursor is on the screen and no cell outside it was
written; the screen and its cursor are the last 25 rows, up to the cursor's, of the
page that the texts of the calls make up. -/
theorem screen_ends_page (color : U8) (s : Screen) {calls : List PrintCall}
    (h : ∀ call ∈ calls, call ≠ .char 8#8) :
    let s' := runCalls calls (clearScreen color s)
    let p := layout (calls.flatMap PrintCall.printed)
    s'.cursorIndex < screenSize ∧
      (∀ i ∈ callsWrites calls (clearScreen color s), i < screenSize) ∧
      s'.cursorIndex = (p.row - p.top screenHeight) * screenWidth + p.col ∧
      ∀ r < screenHeight, ∀ c < screenWidth,
        charOf (s'.cells (r * screenWidth + c)) = p.cell (p.top screenHeight + r) c := by
  intro s' p
  obtain ⟨hrun, hwrites⟩ := runCalls_eq h (clearScreen color s)
  have htidy := clearScreen_tidy color s
  have hend : s'.EndOf p := by
    rw [show s' = _ from hrun]
    exact (clearScreen_endOf color s).printText _
  have hlt : s'.cursorIndex < screenSize := by
    rw [show s' = _ from hrun]
    exact (htidy.printText _).cursor_lt
  rw [hwrites]
  exact ⟨hlt, fun i hi => htidy.writes_lt _ hi, hend.shows.cursor_eq, hend.shows.cells⟩

/-- A number and a newline. -/
theorem numberLine_ends_page :
    let s' := runCalls [.uint 42#32, .char 10#8] (clearScreen 0#8 ⟨fun _ => 0#16, 0⟩)
    s'.cursorIndex = 80 ∧ charOf (s'.cells 0) = 0x34#8 ∧ charOf (s'.cells 1) = 0x32#8 := by
  intro s'
  have hcalls : ∀ call ∈ [PrintCall.uint 42#32, .char 10#8], call ≠ .char 8#8 := by simp
  obtain ⟨-, -, hcursor, hcells⟩ := screen_ends_page 0#8 ⟨fun _ => 0#16, 0⟩ hcalls
  have hpage : layout ([PrintCall.uint 42#32, .char 10#8].flatMap PrintCall.printed) =
      (((Page.empty 0x20#8).fill 80 0x34#8).fill 80 0x32#8).newRow := by
    simp [PrintCall.printed, decimalText, layout, placeChar, screenWidth]
  rw [hpage] at hcursor hcells
  refine ⟨?_, ?_, ?_⟩
  · rw [show s'.cursorIndex = _ from hcursor]
    rfl
  · exact hcells 0 (by decide) 0 (by decide)
  · exact hcells 0 (by decide) 1 (by decide)

end AlderKernel.Shell
