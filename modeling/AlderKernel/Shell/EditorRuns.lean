import AlderKernel.Shell.Editor

/-!
# Runs of the line editor

The line, the history and the stashed line stay strings inside their buffers, whatever keys
arrive. The invariant ties the index to the line, every stored line to its end, and the browse
position to the number of stored lines; each kind of key keeps it.
-/

namespace AlderKernel.Shell

open Machine Drivers

/-- The invariant of the line editor. -/
structure Editor.Safe (s : Editor) : Prop where
  idx_le : s.idx ≤ 127#32
  ne_zero : ∀ j < s.idx, s.shellBuffer j ≠ 0#8
  history_terminated : ∀ i < historySize, (s.history i).Terminated
  saved_terminated : s.savedCurrent.Terminated
  next_lt : s.historyNext < historySize
  count_le : s.historyCount ≤ historySize
  browse_ge : -1 ≤ s.historyBrowseIndex.toInt
  browse_lt : s.historyBrowseIndex.toInt < s.historyCount.toNat

/-- A step has a result, and its result is safe. -/
def Safely (step : Option (Editor × List U8)) : Prop := ∃ r, step = some r ∧ r.1.Safe

/-- The loop of `shell_start` on a sequence of keys, each with what the commands do at that time. -/
def processKeys : List (Commands × U8) → Editor → Option (Editor × List U8)
  | [], s => some (s, [])
  | (commands, c) :: keys, s =>
    (processKey commands c s).bind fun r =>
      (processKeys keys r.1).map fun rest => (rest.1, r.2 ++ rest.2)

section

variable {s : Editor} {line newContent buffer : Line} {n i browse : U32} {c : U8}
  {commands : Commands} {turns : ℕ} {printed : List U8}

/-- The editor that `shell_start` begins with. -/
theorem Editor.start_safe : Editor.start.Safe where
  idx_le := by decide
  ne_zero j hj := by
    have hzero : Editor.start.idx = 0#32 := rfl
    exact absurd hj (by bv_omega)
  history_terminated _ _ := Line.zero_terminated
  saved_terminated := Line.zero_terminated
  next_lt := by decide
  count_le := by decide
  browse_ge := by decide
  browse_lt := by decide

/-- Ending the line at the index makes it a string of that length. -/
theorem Editor.Safe.ended (h : s.Safe) :
    ∃ line, writeAt s.shellBuffer s.idx 0#8 = some line ∧ line.HasLength s.idx := by
  have hidx := h.idx_le
  have hlt : s.idx < shellBufferSize := by
    have hsize : shellBufferSize = 128#32 := rfl
    bv_omega
  refine ⟨_, writeAt_of_lt hlt, hlt, if_pos rfl, fun j hj => ?_⟩
  rw [if_neg (BitVec.ne_of_lt hj)]
  exact h.ne_zero j hj

/-- The loop of `redraw_line` copies and prints a string up to its end. -/
theorem redrawFrom_spec (h : newContent.HasLength n) (hi : i ≤ n)
    (hturns : n.toNat < i.toNat + turns) :
    ∃ buffer', redrawFrom newContent turns i buffer printed =
        some (n, buffer', printed ++ newContent.chars i.toNat n.toNat) ∧
      (∀ j, i ≤ j → j < n → buffer' j = newContent j) ∧ ∀ j < i, buffer' j = buffer j := by
  have hlt := h.lt
  have hsize : shellBufferSize = 128#32 := rfl
  induction turns generalizing i buffer printed with
  | zero => exact absurd hturns (by bv_omega)
  | succ turns ih =>
    have hilt : i < shellBufferSize := by bv_omega
    unfold redrawFrom
    rw [readAt_of_lt hilt, Option.bind_some, writeAt_of_lt hilt, writeAt_of_lt hilt]
    by_cases hend : i = n
    · subst hend
      rw [if_neg (fun hand => hand.1 h.ends), Line.chars_self, List.append_nil]
      refine ⟨_, rfl, fun j hij hjn => absurd hjn (BitVec.not_lt.mpr hij), fun j hj => ?_⟩
      exact if_neg (BitVec.ne_of_lt hj)
    · have hlast : i < shellBufferSize - 1#32 := by
        rw [hsize] at hlt ⊢
        bv_omega
      have hnext : (i + 1#32).toNat = i.toNat + 1 := by bv_omega
      have hcons : newContent.chars i.toNat n.toNat =
          newContent i :: newContent.chars (i + 1#32).toNat n.toNat := by
        rw [Line.chars_cons _ (by bv_omega), BitVec.ofNat_toNat, BitVec.setWidth_eq, hnext]
      rw [if_pos ⟨h.ne_zero i (by bv_omega), hlast⟩, Option.bind_some, hcons]
      obtain ⟨buffer', hrun, hcopied, hrest⟩ :=
        @ih (fun j => if j = i then newContent i else buffer j) (i + 1#32)
          (printed ++ [newContent i]) (by bv_omega) (by bv_omega)
      rw [← List.append_cons] at hrun
      refine ⟨buffer', hrun, fun j hij hjn => ?_, fun j hj => ?_⟩
      · by_cases hji : j = i
        · rw [hrest j (by bv_omega), if_pos hji, hji]
        · exact hcopied j (by bv_omega) hjn
      · rw [hrest j (by bv_omega), if_neg (by bv_omega)]

/-- `redraw_line` with a string that ends inside its buffer erases the line and makes the string the
new one. -/
theorem redrawLine_spec (s : Editor) (hn : newContent.HasLength n) :
    ∃ buffer, redrawLine newContent s = some ({ s with shellBuffer := buffer, idx := n },
        List.replicate s.idx.toNat 8#8 ++ newContent.chars 0 n.toNat) ∧
      ∀ j < n, buffer j = newContent j := by
  have hlt := hn.lt
  have hsize : shellBufferSize = 128#32 := rfl
  have hzero : (0#32).toNat = 0 := rfl
  have hle (j : U32) : 0#32 ≤ j := BitVec.le_def.mpr (Nat.zero_le _)
  have hturns : n.toNat < (0#32).toNat + (shellBufferSize.toNat + 1) := by bv_omega
  obtain ⟨buffer, hrun, hcopied, -⟩ := @redrawFrom_spec newContent s.shellBuffer n 0#32 _
    (List.replicate s.idx.toNat 8#8) hn (hle n) hturns
  exact ⟨buffer, by rw [redrawLine, hrun, Option.map_some, hzero], fun j hj => hcopied j (hle j) hj⟩

/-- `redraw_line` with a string that ends inside its buffer makes it the line. -/
theorem Editor.Safe.redrawLine (h : s.Safe) (hline : newContent.Terminated) :
    Safely (redrawLine newContent s) := by
  obtain ⟨n, hn⟩ := hline
  have hlt := hn.lt
  have hsize : shellBufferSize = 128#32 := rfl
  obtain ⟨buffer, hrun, hcopied⟩ := redrawLine_spec s hn
  refine ⟨_, hrun, { h with idx_le := ?_, ne_zero := ?_ }⟩
  · show n ≤ 127#32
    bv_omega
  · intro j hj
    show buffer j ≠ 0#8
    rw [hcopied j hj]
    exact hn.ne_zero j hj

/-- The history keeps the line it is given. -/
theorem Editor.Safe.historyAdd (h : s.Safe) (hline : line.Terminated) :
    ∃ s', historyAdd line s = some s' ∧ s'.Safe := by
  obtain ⟨n, hn⟩ := hline
  unfold Shell.historyAdd
  rw [readAt_of_lt (by decide), Option.bind_some, if_pos h.next_lt]
  by_cases hempty : line 0#32 = 0#8
  · exact ⟨s, if_pos hempty, h⟩
  rw [if_neg hempty]
  obtain ⟨entry, hcopy, hentry, -⟩ := strCopy_spec (s.history s.historyNext) hn
  have hsize : historySize = 16#32 := rfl
  have hcount := h.count_le
  have hbrowse := h.browse_lt
  rw [hcopy, Option.map_some]
  refine ⟨_, rfl,
    { h with history_terminated := ?_, next_lt := ?_, count_le := ?_, browse_lt := ?_ }⟩
  · intro i hi
    show Line.Terminated (if i = s.historyNext then entry else s.history i)
    split_ifs
    · exact ⟨n, hentry⟩
    · exact h.history_terminated i hi
  · show (s.historyNext + 1#32) % historySize < historySize
    exact BitVec.umod_lt _ (by decide)
  · show (if s.historyCount < historySize then s.historyCount + 1#32 else s.historyCount) ≤
      historySize
    split_ifs <;> bv_omega
  · show s.historyBrowseIndex.toInt <
      (if s.historyCount < historySize then s.historyCount + 1#32 else s.historyCount).toNat
    split_ifs with hlt
    · have hstep : (s.historyCount + 1#32).toNat = s.historyCount.toNat + 1 := by bv_omega
      omega
    · exact hbrowse

/-- A position below the number of stored lines names one of them. -/
theorem Editor.Safe.historyGet (h : s.Safe) (hb : browse < s.historyCount) :
    ∃ entry, historyGet browse s = some entry ∧ entry.Terminated := by
  have hsize : historySize = 16#32 := rfl
  refine ⟨_, if_neg (by bv_omega), h.history_terminated _ ?_⟩
  exact BitVec.umod_lt _ (by decide)

/-- Going to a position below the number of stored lines. -/
theorem Editor.Safe.showEntry (h : s.Safe) (hb : browse < s.historyCount) :
    Safely (showEntry browse s) := by
  have hcount := h.count_le
  have hsize : historySize = 16#32 := rfl
  have hint : browse.toInt = browse.toNat := BitVec.toInt_eq_toNat_of_lt (by bv_omega)
  have hmoved : Safe { s with historyBrowseIndex := browse } :=
    { h with
      browse_ge := show -1 ≤ browse.toInt by omega
      browse_lt := show browse.toInt < s.historyCount.toNat by bv_omega }
  obtain ⟨entry, hget, hentry⟩ := hmoved.historyGet hb
  obtain ⟨r, hredraw, hsafe⟩ := hmoved.redrawLine hentry
  exact ⟨r, by rw [Shell.showEntry, hget, Option.bind_some, hredraw], hsafe⟩

/-- Stashing the line that is being typed. -/
theorem Editor.Safe.stashLine (h : s.Safe) :
    ∃ s', stashLine s = some s' ∧ s'.Safe ∧ s'.historyBrowseIndex = s.historyBrowseIndex ∧
      s'.historyCount = s.historyCount := by
  unfold Shell.stashLine
  split_ifs
  · obtain ⟨line, hwrite, hline⟩ := h.ended
    obtain ⟨saved, hcopy, hsaved, -⟩ := strCopy_spec s.savedCurrent hline
    refine ⟨{ s with shellBuffer := line, savedCurrent := saved }, ?_, ?_, rfl, rfl⟩
    · rw [hwrite, Option.bind_some, hcopy, Option.map_some]
    · exact { h with ne_zero := hline.ne_zero, saved_terminated := ⟨s.idx, hsaved⟩ }
  · exact ⟨s, rfl, h, rfl, rfl⟩

/-- The Up key. -/
theorem Editor.Safe.arrowUp (h : s.Safe) : Safely (arrowUp s) := by
  obtain ⟨s', hstash, hsafe, -, -⟩ := h.stashLine
  unfold Shell.arrowUp
  rw [hstash, Option.bind_some]
  split_ifs with hlt
  · exact hsafe.showEntry hlt
  · exact ⟨_, rfl, hsafe⟩

/-- Back to the line that is being typed. -/
theorem Editor.Safe.endBrowse (h : s.Safe) : Safe { s with historyBrowseIndex := -1#32 } := by
  have hneg : (-1#32).toInt = -1 := by decide
  refine { h with browse_ge := ?_, browse_lt := ?_ }
  · show -1 ≤ (-1#32).toInt
    omega
  · show (-1#32).toInt < s.historyCount.toNat
    omega

/-- The Down key. -/
theorem Editor.Safe.arrowDown (h : s.Safe) : Safely (arrowDown s) := by
  have hlt := h.browse_lt
  unfold Shell.arrowDown
  split_ifs with hpos hzero
  · apply h.showEntry
    have hsign : 0 < s.historyBrowseIndex.toInt := BitVec.slt_iff_toInt_lt.mp hpos
    rw [BitVec.toInt_eq_toNat_cond] at hsign hlt
    split_ifs at hsign hlt <;> bv_omega
  · apply redrawLine
    · exact h.endBrowse
    · exact h.saved_terminated
  · exact ⟨_, rfl, h⟩

/-- A newline: the line is a string inside its buffer when it is stored, and the editor starts a
new line whatever the command leaves. -/
theorem Editor.Safe.enterLine (h : s.Safe) : Safely (enterLine commands s) := by
  obtain ⟨line, hwrite, hline⟩ := h.ended
  have hended : Safe { s with shellBuffer := line } := { h with ne_zero := hline.ne_zero }
  obtain ⟨s', hadd, hsafe⟩ := hended.historyAdd ⟨s.idx, hline⟩
  refine ⟨_, by rw [Shell.enterLine, hwrite, Option.bind_some, hadd, Option.map_some], ?_⟩
  exact { hsafe with
    idx_le := BitVec.le_def.mpr (Nat.zero_le _)
    ne_zero := fun j hj => absurd (show j < 0#32 from hj) (by bv_omega)
    browse_ge := hsafe.endBrowse.browse_ge
    browse_lt := hsafe.endBrowse.browse_lt }

/-- A backspace. -/
theorem Editor.Safe.eraseChar (h : s.Safe) : (eraseChar s).1.Safe := by
  have hidx := h.idx_le
  unfold Shell.eraseChar
  split_ifs with hpos
  · exact { h with
      idx_le := show s.idx - 1#32 ≤ 127#32 by bv_omega
      ne_zero := fun j hj => h.ne_zero j (by
        have hlt : j < s.idx - 1#32 := hj
        bv_omega) }
  · exact h

/-- Any other character, which is no zero byte. -/
theorem Editor.Safe.typeChar (h : s.Safe) (hc : c ≠ 0#8) : Safely (typeChar c s) := by
  have hsize : shellBufferSize = 128#32 := rfl
  unfold Shell.typeChar
  split_ifs with hroom
  · rw [hsize] at hroom
    rw [writeAt_of_lt (by bv_omega), Option.map_some]
    refine ⟨_, rfl, { h with idx_le := ?_, ne_zero := ?_ }⟩
    · show s.idx + 1#32 ≤ 127#32
      bv_omega
    · intro j hj
      show (if j = s.idx then c else s.shellBuffer j) ≠ 0#8
      by_cases hji : j = s.idx
      · rwa [if_pos hji]
      · rw [if_neg hji]
        have hlt : j < s.idx + 1#32 := hj
        exact h.ne_zero j (by bv_omega)
  · exact ⟨_, rfl, h⟩

/-- Every key is processed inside the buffers and keeps the invariant. -/
theorem Editor.Safe.processKey (h : s.Safe) : Safely (processKey commands c s) := by
  unfold Shell.processKey
  by_cases hzero : c = 0#8
  · rw [if_pos hzero]
    exact ⟨_, rfl, h⟩
  rw [if_neg hzero]
  split_ifs
  · exact h.arrowUp
  · exact h.arrowDown
  · exact h.enterLine
  · exact ⟨_, rfl, h.eraseChar⟩
  · exact h.typeChar hzero

/-- A sequence of keys from a safe editor. -/
theorem Editor.Safe.processKeys {keys : List (Commands × U8)} (h : s.Safe) :
    Safely (processKeys keys s) := by
  induction keys generalizing s with
  | nil => exact ⟨_, rfl, h⟩
  | cons key keys ih =>
    obtain ⟨commands, c⟩ := key
    obtain ⟨r, hstep, hsafe⟩ : Safely (Shell.processKey commands c s) := h.processKey
    obtain ⟨rest, hrest, hend⟩ := ih hsafe
    refine ⟨(rest.1, r.2 ++ rest.2), ?_, hend⟩
    rw [Shell.processKeys, hstep, Option.bind_some, hrest, Option.map_some]

end

/-- Whatever keys arrive, whatever the commands leave in the line and print, every read and write of
the editor stays inside its buffer, every position it recalls holds a line, and after every key the
invariant holds. -/
theorem processKeys_safe (keys : List (Commands × U8)) :
    ∃ s printed, processKeys keys .start = some (s, printed) ∧ s.Safe := by
  obtain ⟨r, hrun, hsafe⟩ : Safely (processKeys keys .start) := Editor.start_safe.processKeys
  exact ⟨r.1, r.2, hrun, hsafe⟩

end AlderKernel.Shell
