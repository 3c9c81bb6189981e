import AlderKernel.Shell.History
import AlderKernel.Shell.ScreenRuns

/-!
# The line editor as it is meant

A line of text, the lines that were run before, and where the user is among them: a state without
buffers and indices. The editor of `shell.c` behaves like it for every sequence of keys.
-/

namespace AlderKernel.Shell

open Machine Drivers

/-- A line of text and the lines that were run, the last one first. While one of these is shown,
its position among them is known, and the line that it stands in for. -/
structure LineEditor where
  line : List U8
  past : List (List U8)
  browsing : Option (ℕ × List U8)

/-- What the commands do at some time. What a line prints when it is run is a function of its
text. -/
structure Behaviour where
  commands : Commands
  run : List U8 → List U8
  runs : ∀ {line : Line} {n : U32}, line.HasLength n →
    (commands.interpretCommand line).2 = run (line.chars 0 n.toNat)

/-- A key, with what the commands do at that time. -/
structure Press extends Behaviour where
  key : U8

namespace LineEditor

/-- Nothing was typed yet. -/
def start : LineEditor := ⟨[], [], none⟩

/-- Show another line in place of the present one. -/
def replace (line : List U8) (browsing : Option (ℕ × List U8)) (e : LineEditor) :
    LineEditor × List U8 :=
  ({ e with line := line, browsing := browsing }, List.replicate e.line.length 8#8 ++ line)

/-- The key Up: one line further back, among the last sixteen. -/
def up (e : LineEditor) : LineEditor × List U8 :=
  let next := e.browsing.elim 0 fun b => b.1 + 1
  let stash := e.browsing.elim e.line fun b => b.2
  match (e.past.take 16)[next]? with
  | some entry => e.replace entry (some (next, stash))
  | none => (e, [])

/-- The key Down: one line forward again, and in the end back to the line that was typed. -/
def down (e : LineEditor) : LineEditor × List U8 :=
  match e.browsing with
  | none => (e, [])
  | some (0, stash) => e.replace stash none
  | some (k + 1, stash) =>
    match (e.past.take 16)[k]? with
    | some entry => e.replace entry (some (k, stash))
    | none => (e, [])

/-- The line is run. An empty line is not remembered. -/
def enter (p : Press) (e : LineEditor) : LineEditor × List U8 :=
  (⟨[], if e.line = [] then e.past else e.line :: e.past, none⟩,
    chars "\n" ++ p.run e.line ++ printPrompt p.commands)

/-- A key. The line has room for 127 characters. -/
def press (p : Press) (e : LineEditor) : LineEditor × List U8 :=
  if p.key = 0#8 then (e, [])
  else if p.key = keyArrowUp then e.up
  else if p.key = keyArrowDown then e.down
  else if p.key = 10#8 then e.enter p
  else if p.key = 8#8 then
    ({ e with line := e.line.dropLast }, if e.line = [] then [] else [8#8])
  else if e.line.length < 127 then ({ e with line := e.line ++ [p.key] }, [p.key])
  else (e, [])

/-- Keys one after the other, and what they print. -/
def presses : List Press → LineEditor → LineEditor × List U8
  | [], e => (e, [])
  | p :: ps, e => ((presses ps (e.press p).1).1, (e.press p).2 ++ (presses ps (e.press p).1).2)

end LineEditor

/-- The buffer holds the text as a string. -/
def Line.Spells (line : Line) (text : List U8) : Prop :=
  ∃ n, line.HasLength n ∧ line.chars 0 n.toNat = text

/-- The browse position of the code. -/
def Editor.Browses (s : Editor) : Option (ℕ × List U8) → Prop
  | none => s.historyBrowseIndex = -1#32
  | some (k, stash) =>
    s.historyBrowseIndex.toNat = k ∧ k < s.historyCount.toNat ∧ s.savedCurrent.Spells stash

/-- The variables of `shell.c` stand for the state of a line editor. -/
structure Editor.Implements (s : Editor) (e : LineEditor) : Prop where
  safe : s.Safe
  line : s.line = e.line
  past : ∃ lines, s.Remembers lines ∧ List.Forall₂ Line.Spells lines e.past
  browsing : s.Browses e.browsing

section

variable {s s' : Editor} {e : LineEditor} {line entry : Line} {n : U32} {text : List U8}
  {p : Press} {r : Editor × List U8}

/-- The first state. -/
theorem Editor.start_implements : Editor.start.Implements .start where
  safe := start_safe
  line := Line.chars_self _ _
  past := ⟨[], start_remembers, .nil⟩
  browsing := rfl

/-- A copy of a string is the same text. -/
theorem Line.SameString.spells (h : entry.SameString line) (hline : line.Spells text) :
    entry.Spells text := by
  obtain ⟨n, hn, hcopy, hsame⟩ := h
  obtain ⟨m, hm, rfl⟩ := hline
  obtain rfl := hn.unique hm
  exact ⟨n, hcopy, Line.chars_congr hsame⟩

/-- `redraw_line` shows the text of a line. -/
theorem redrawLine_spells (s : Editor) (h : line.Spells text) :
    ∃ s', redrawLine line s = some (s', List.replicate s.idx.toNat 8#8 ++ text) ∧ s'.line = text ∧
      s' = { s with shellBuffer := s'.shellBuffer, idx := s'.idx } := by
  obtain ⟨n, hn, rfl⟩ := h
  obtain ⟨buffer, hrun, hcopied⟩ := redrawLine_spec s hn
  exact ⟨_, hrun, Line.chars_congr hcopied, rfl⟩

/-- `history_get` gives the lines that were run. -/
theorem Editor.Implements.historyGet (h : s.Implements e) (back : U32) :
    Option.Rel Line.Spells (Shell.historyGet back s) (e.past.take 16)[back.toNat]? := by
  obtain ⟨lines, hlines, hpast⟩ := h.past
  have hget := hlines.historyGet back
  have hall := List.forall₂_iff_get.mp (List.forall₂_take 16 hpast)
  cases hentry : (lines.take 16)[back.toNat]? with
  | none =>
    rw [hentry] at hget
    rw [List.getElem?_eq_none_iff, hall.1, ← List.getElem?_eq_none_iff] at hentry
    rw [hentry]
    generalize Shell.historyGet back s = got at hget
    cases hget
    exact .none
  | some line =>
    rw [hentry] at hget
    obtain ⟨hlt, hline⟩ := List.getElem?_eq_some_iff.mp hentry
    have hlt' : back.toNat < (e.past.take 16).length := hall.1 ▸ hlt
    have hspells := hall.2 back.toNat hlt hlt'
    rw [List.getElem?_eq_getElem hlt']
    generalize Shell.historyGet back s = got at hget
    cases hget with
    | some hsame =>
      subst hline
      exact .some (hsame.spells hspells)

/-- As many lines can be recalled as are remembered, up to sixteen. -/
theorem Editor.Implements.count_eq (h : s.Implements e) :
    s.historyCount.toNat = (e.past.take 16).length := by
  obtain ⟨lines, hlines, hpast⟩ := h.past
  rw [List.length_take, ← hpast.length_eq]
  exact hlines.count_eq

/-- Going to an entry shows it, and keeps the line that it stands in for. -/
theorem Editor.Implements.showEntry {back : U32} {entry stash : List U8} (h : s.Implements e)
    (hentry : (e.past.take 16)[back.toNat]? = some entry) (hstash : s.savedCurrent.Spells stash) :
    ∃ s', Shell.showEntry back s = some (s', (e.replace entry (some (back.toNat, stash))).2) ∧
      s'.Implements (e.replace entry (some (back.toNat, stash))).1 := by
  have hget := h.historyGet back
  have hcount : back.toNat < s.historyCount.toNat := by
    rw [h.count_eq]
    exact (List.getElem?_eq_some_iff.mp hentry).1
  rw [hentry] at hget
  obtain ⟨r, hrun, hsafe⟩ := h.safe.showEntry (BitVec.lt_def.mpr hcount)
  have hshow : Shell.showEntry back s = (Shell.historyGet back s).bind fun line =>
    redrawLine line { s with historyBrowseIndex := back } := rfl
  generalize Shell.historyGet back s = got at hget hshow
  cases hget with
  | some hline =>
    obtain ⟨s', hredraw, hs', hsame⟩ :=
      redrawLine_spells { s with historyBrowseIndex := back } hline
    rw [hshow, Option.bind_some, hredraw] at hrun
    obtain rfl := Option.some.inj hrun
    have hlen : s.idx.toNat = e.line.length := by rw [← h.line, Editor.length_line]
    refine ⟨s', ?_, hsafe, hs', ?_, ?_⟩
    · rw [hshow, Option.bind_some, hredraw]
      simp only [LineEditor.replace, hlen]
    · obtain ⟨lines, hlines, hpast⟩ := h.past
      rw [hsame]
      exact ⟨lines, hlines, hpast⟩
    · rw [hsame]
      exact ⟨rfl, hcount, hstash⟩

/-- The first part of an Up key puts the line that is being typed aside. -/
theorem Editor.Implements.stashLine (h : s.Implements e) :
    ∃ s', Shell.stashLine s = some s' ∧ s'.Implements e ∧
      s'.savedCurrent.Spells (e.browsing.elim e.line fun b => b.2) ∧
      s'.historyBrowseIndex = s.historyBrowseIndex := by
  obtain ⟨s', hrun, hsafe, hbrowse, hcount⟩ := h.safe.stashLine
  refine ⟨s', hrun, ?_⟩
  cases hb : e.browsing with
  | none =>
    have hlive : s.historyBrowseIndex = -1#32 := by
      have := h.browsing
      rwa [hb] at this
    obtain ⟨ended, hw, -⟩ := h.safe.ended
    obtain ⟨hlength, hchars⟩ := chars_ended h.safe hw
    obtain ⟨saved, hcopy, hsaved, hsame⟩ := strCopy_spec s.savedCurrent hlength
    have hstash : Shell.stashLine s =
        some { s with shellBuffer := ended, savedCurrent := saved } := by
      unfold Shell.stashLine
      rw [if_pos hlive, hw, Option.bind_some, hcopy, Option.map_some]
    obtain rfl := Option.some.inj (hstash.symm.trans hrun)
    refine ⟨⟨hsafe, hchars.trans h.line, h.past, ?_⟩, ?_, rfl⟩
    · rw [hb]
      exact hlive
    · refine ⟨s.idx, hsaved, ?_⟩
      rw [Line.chars_congr fun j hj => hsame j (BitVec.le_of_lt hj), hchars, h.line]
      rfl
  | some b =>
    obtain ⟨k, stash⟩ := b
    have hbrowsing := h.browsing
    rw [hb] at hbrowsing
    obtain ⟨hk, hlt, hstash⟩ := hbrowsing
    have hne : s.historyBrowseIndex ≠ -1#32 := by
      have hmax := h.safe.count_le
      have hsize : historySize = 16#32 := rfl
      bv_omega
    obtain rfl := Option.some.inj ((if_neg hne).symm.trans hrun)
    exact ⟨h, hstash, rfl⟩

/-- The key Up. -/
theorem Editor.Implements.arrowUp (h : s.Implements e) :
    ∃ s', Shell.arrowUp s = some (s', e.up.2) ∧ s'.Implements e.up.1 := by
  obtain ⟨s₁, hstash, himpl, hsaved, hindex⟩ := h.stashLine
  have hmax := h.safe.count_le
  have hsize : historySize = 16#32 := rfl
  have hnext : (s₁.historyBrowseIndex + 1#32).toNat = e.browsing.elim 0 fun b => b.1 + 1 := by
    have hbrowsing := h.browsing
    rw [hindex]
    cases hb : e.browsing with
    | none =>
      rw [hb] at hbrowsing
      rw [show s.historyBrowseIndex = -1#32 from hbrowsing]
      rfl
    | some b =>
      rw [hb] at hbrowsing
      obtain ⟨hk, hlt, -⟩ := hbrowsing
      show (s.historyBrowseIndex + 1#32).toNat = b.1 + 1
      bv_omega
  unfold Shell.arrowUp LineEditor.up
  rw [hstash, Option.bind_some, ← hnext]
  cases hentry : (e.past.take 16)[(s₁.historyBrowseIndex + 1#32).toNat]? with
  | none =>
    have hge : ¬ s₁.historyBrowseIndex + 1#32 < s₁.historyCount := by
      rw [BitVec.lt_def, himpl.count_eq, not_lt]
      exact List.getElem?_eq_none_iff.mp hentry
    rw [if_neg hge]
    simp only [hentry]
    exact ⟨s₁, rfl, himpl⟩
  | some entry =>
    have hlt : s₁.historyBrowseIndex + 1#32 < s₁.historyCount := by
      rw [BitVec.lt_def, himpl.count_eq]
      exact (List.getElem?_eq_some_iff.mp hentry).1
    rw [if_pos hlt]
    simp only [hentry]
    exact himpl.showEntry hentry hsaved

/-- The key Down. -/
theorem Editor.Implements.arrowDown (h : s.Implements e) :
    ∃ s', Shell.arrowDown s = some (s', e.down.2) ∧ s'.Implements e.down.1 := by
  have hmax := h.safe.count_le
  have hsize : historySize = 16#32 := rfl
  have hbrowsing := h.browsing
  unfold Shell.arrowDown LineEditor.down
  cases hb : e.browsing with
  | none =>
    rw [hb] at hbrowsing
    have hlive : s.historyBrowseIndex = -1#32 := hbrowsing
    rw [hlive, if_neg (by decide), if_neg (by decide)]
    exact ⟨s, rfl, h⟩
  | some b =>
    obtain ⟨k, stash⟩ := b
    rw [hb] at hbrowsing
    obtain ⟨hk, hlt, hstash⟩ := hbrowsing
    cases k with
    | zero =>
      have hzero : s.historyBrowseIndex = 0#32 := BitVec.eq_of_toNat_eq hk
      obtain ⟨r, hrun, hsafe⟩ := h.safe.endBrowse.redrawLine ⟨_, hstash.choose_spec.1⟩
      obtain ⟨s', hredraw, hs', hsame⟩ :=
        redrawLine_spells { s with historyBrowseIndex := -1#32 } hstash
      obtain rfl := Option.some.inj (hredraw.symm.trans hrun)
      have hlen : s.idx.toNat = e.line.length := by rw [← h.line, Editor.length_line]
      rw [if_neg (by rw [hzero]; decide), if_pos hzero]
      refine ⟨s', ?_, hsafe, hs', ?_, ?_⟩
      · rw [hredraw]
        simp only [LineEditor.replace, hlen]
      · obtain ⟨lines, hlines, hpast⟩ := h.past
        rw [hsame]
        exact ⟨lines, hlines, hpast⟩
      · rw [hsame]
        rfl
    | succ k =>
      have hpos : (0#32).slt s.historyBrowseIndex = true := by
        rw [BitVec.slt_iff_toInt_lt, BitVec.toInt_zero, BitVec.toInt_eq_toNat_of_lt (by bv_omega)]
        omega
      have hprev : (s.historyBrowseIndex - 1#32).toNat = k := by bv_omega
      have hrange : k < (e.past.take 16).length := by
        rw [← h.count_eq]
        omega
      have hentry : (e.past.take 16)[(s.historyBrowseIndex - 1#32).toNat]? =
          some (e.past.take 16)[k] := by
        rw [hprev, List.getElem?_eq_getElem hrange]
      have hshow := h.showEntry hentry hstash
      rw [if_pos hpos]
      rw [hprev] at hshow
      simp only [List.getElem?_eq_getElem hrange]
      exact hshow

/-- `history_add` changes the history only. -/
theorem historyAdd_kept (hr : historyAdd line s = some s') :
    s' = { s with
      history := s'.history, historyCount := s'.historyCount, historyNext := s'.historyNext } := by
  unfold historyAdd at hr
  obtain ⟨first, -, hrest⟩ := Option.bind_eq_some_iff.mp hr
  by_cases hempty : first = 0#8
  · rw [if_pos hempty] at hrest
    obtain rfl := Option.some.inj hrest
    rfl
  by_cases hnext : s.historyNext < historySize
  · rw [if_neg hempty, if_pos hnext] at hrest
    obtain ⟨entry, -, rfl⟩ := Option.map_eq_some_iff.mp hrest
    rfl
  · rw [if_neg hempty, if_neg hnext] at hrest
    cases hrest

/-- A newline. -/
theorem Editor.Implements.enterLine (h : s.Implements e) (p : Press) :
    ∃ s', Shell.enterLine p.commands s = some (s', (e.enter p).2) ∧
    s'.Implements (e.enter p).1 := by
  obtain ⟨r, hrun, hsafe⟩ : Safely (Shell.enterLine p.commands s) := h.safe.enterLine
  refine ⟨r.1, ?_⟩
  obtain ⟨ended, hw, hadd⟩ := Option.bind_eq_some_iff.mp hrun
  obtain ⟨s₁, hadded, rfl⟩ := Option.map_eq_some_iff.mp hadd
  obtain ⟨hlength, hchars⟩ := chars_ended h.safe hw
  obtain ⟨lines, hlines, hpast⟩ := h.past
  have hremembers : Editor.Remembers lines { s with shellBuffer := ended } := hlines
  obtain ⟨s₂, hadded', hremembers'⟩ := hremembers.historyAdd ⟨s.idx, hlength⟩
  obtain rfl := Option.some.inj (hadded'.symm.trans hadded)
  have hkept := historyAdd_kept hadded
  have hbuffer : s₂.shellBuffer = ended := by rw [hkept]
  have htext : (p.commands.interpretCommand s₂.shellBuffer).2 = p.run e.line := by
    rw [hbuffer, p.runs hlength, hchars, h.line]
  have hempty : ended 0#32 = 0#8 ↔ e.line = [] := by
    rw [← h.line, ← hchars, ← List.length_eq_zero_iff, Line.length_chars]
    constructor
    · intro hzero
      by_contra hne
      exact hlength.ne_zero 0#32 (by bv_omega) hzero
    · intro hzero
      have hidx : s.idx = 0#32 := by bv_omega
      rw [← hidx]
      exact hlength.ends
  refine ⟨?_, hsafe, Line.chars_self _ _, ?_, rfl⟩
  · rw [hrun]
    simp only [LineEditor.enter, htext]
  · by_cases hnil : e.line = []
    · rw [if_pos (hempty.mpr hnil)] at hremembers'
      refine ⟨lines, hremembers', ?_⟩
      simp only [LineEditor.enter, if_pos hnil]
      exact hpast
    · rw [if_neg fun hzero => hnil (hempty.mp hzero)] at hremembers'
      refine ⟨ended :: lines, hremembers', ?_⟩
      simp only [LineEditor.enter, if_neg hnil]
      exact .cons ⟨s.idx, hlength, hchars.trans h.line⟩ hpast

/-- A backspace. -/
theorem Editor.Implements.eraseChar (h : s.Implements e) :
    (Shell.eraseChar s).2 = (if e.line = [] then [] else [8#8]) ∧
      (Shell.eraseChar s).1.Implements { e with line := e.line.dropLast } := by
  have hsafe := h.safe.eraseChar
  have hlen : s.idx.toNat = e.line.length := by rw [← h.line, Editor.length_line]
  have hline := h.line
  unfold Shell.eraseChar at *
  split_ifs at * with hpos hnil
  · rw [hnil, List.length_nil] at hlen
    exact absurd hpos (by bv_omega)
  · refine ⟨rfl, hsafe, ?_, h.past, h.browsing⟩
    have hidx : s.idx.toNat = (s.idx - 1#32).toNat + 1 := by bv_omega
    show s.shellBuffer.chars 0 (s.idx - 1#32).toNat = e.line.dropLast
    rw [← hline, Editor.line, hidx, Line.chars_succ, List.dropLast_concat]
  · refine ⟨rfl, hsafe, ?_, h.past, h.browsing⟩
    rw [hline, ‹e.line = []›]
    rfl
  · rename_i hne
    have hpositive := List.length_pos_iff.mpr hne
    exact absurd hpos (not_not_intro (by bv_omega))

/-- Another character. -/
theorem Editor.Implements.typeChar {c : U8} (h : s.Implements e) (hc : c ≠ 0#8) :
    ∃ s', Shell.typeChar c s =
        some (s',
          (if e.line.length < 127 then ({ e with line := e.line ++ [c] }, [c]) else (e, [])).2) ∧
      s'.Implements
        (if e.line.length < 127 then ({ e with line := e.line ++ [c] }, [c]) else (e, [])).1 := by
  obtain ⟨r, hrun, hsafe⟩ := h.safe.typeChar hc
  have hlen : s.idx.toNat = e.line.length := by rw [← h.line, Editor.length_line]
  have hsize : shellBufferSize = 128#32 := rfl
  unfold Shell.typeChar at *
  by_cases hroom : e.line.length < 127
  · have hlt : s.idx < shellBufferSize - 1#32 := by
      rw [hsize]
      bv_omega
    have hinside : s.idx < shellBufferSize := by
      rw [hsize] at hlt ⊢
      bv_omega
    rw [if_pos hlt, writeAt_of_lt hinside, Option.map_some] at hrun ⊢
    obtain rfl := Option.some.inj hrun
    rw [if_pos hroom]
    refine ⟨_, rfl, hsafe, ?_, h.past, h.browsing⟩
    have hidx : (s.idx + 1#32).toNat = s.idx.toNat + 1 := by
      rw [hsize] at hlt
      bv_omega
    show Line.chars (fun j => if j = s.idx then c else s.shellBuffer j) 0 (s.idx + 1#32).toNat = _
    rw [hidx, Line.chars_succ, BitVec.ofNat_toNat, BitVec.setWidth_eq, if_pos rfl, ← h.line]
    congr 1
    exact Line.chars_congr fun j hj => if_neg (BitVec.ne_of_lt hj)
  · have hge : ¬ s.idx < shellBufferSize - 1#32 := by
      rw [hsize]
      bv_omega
    rw [if_neg hge, if_neg hroom]
    exact ⟨s, rfl, h⟩

/-- Every key. -/
theorem Editor.Implements.press (h : s.Implements e) (p : Press) :
    ∃ s', processKey p.commands p.key s = some (s', (e.press p).2) ∧
    s'.Implements (e.press p).1 := by
  unfold processKey LineEditor.press
  by_cases hzero : p.key = 0#8
  · rw [if_pos hzero, if_pos hzero]
    exact ⟨s, rfl, h⟩
  rw [if_neg hzero, if_neg hzero]
  by_cases hup : p.key = keyArrowUp
  · rw [if_pos hup, if_pos hup]
    exact h.arrowUp
  rw [if_neg hup, if_neg hup]
  by_cases hdown : p.key = keyArrowDown
  · rw [if_pos hdown, if_pos hdown]
    exact h.arrowDown
  rw [if_neg hdown, if_neg hdown]
  by_cases hnewline : p.key = 10#8
  · rw [if_pos hnewline, if_pos hnewline]
    exact h.enterLine p
  rw [if_neg hnewline, if_neg hnewline]
  by_cases hback : p.key = 8#8
  · rw [if_pos hback, if_pos hback]
    obtain ⟨hprinted, himpl⟩ := h.eraseChar
    exact ⟨_, congrArg some (Prod.ext rfl hprinted), himpl⟩
  rw [if_neg hback, if_neg hback]
  exact h.typeChar hzero

/-- Keys one after the other. -/
theorem Editor.Implements.presses (h : s.Implements e) (ps : List Press) :
    ∃ s', processKeys (ps.map fun p => (p.commands, p.key)) s = some (s', (e.presses ps).2) ∧
      s'.Implements (e.presses ps).1 := by
  induction ps generalizing s e with
  | nil => exact ⟨s, rfl, h⟩
  | cons p ps ih =>
    obtain ⟨s₁, hkey, himpl⟩ := h.press p
    obtain ⟨s₂, hrest, hend⟩ := ih himpl
    refine ⟨s₂, ?_, hend⟩
    rw [List.map_cons, processKeys, hkey, Option.bind_some, hrest, Option.map_some]
    rfl

end

/-- The editor of `shell.c` is the line editor. For every sequence of keys, whatever the commands
print and leave in the line: the code stays inside its buffers, it prints what the line editor
prints, and its variables stand for the line, the lines that were run and the browse position of the
line editor. -/
theorem processKeys_implements (ps : List Press) :
    ∃ s, processKeys (ps.map fun p => (p.commands, p.key)) .start =
        some (s, (LineEditor.start.presses ps).2) ∧ s.Implements (LineEditor.start.presses ps).1 :=
  Editor.start_implements.presses ps

end AlderKernel.Shell
