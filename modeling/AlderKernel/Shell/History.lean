import AlderKernel.Order.Ring
import AlderKernel.Shell.Editor

/-!
# The command history

The history is a ring of 16 lines that stands for the last 16 nonempty lines that were added, as
strings: the bytes behind the end of a line are not copied.
-/

namespace AlderKernel.Shell

open Machine

/-- Two lines are the same string. -/
def Line.SameString (copy line : Line) : Prop := ∃ n, line.HasLength n ∧ copy.Copies line n

/-- Calls of `history_add`, one after the other. -/
def historyAddAll : List Line → Editor → Option Editor
  | [], s => some s
  | cmd :: cmds, s => (historyAdd cmd s).bind (historyAddAll cmds)

/-- The nonempty lines, the last one first. -/
def recentLines (cmds : List Line) : List Line :=
  (cmds.filter fun cmd => cmd 0#32 ≠ 0#8).reverse

/-- The history stands for the last of the lines. -/
def Editor.Remembers (lines : List Line) (s : Editor) : Prop :=
  Ring.Latest Line.SameString historySize.toNat (fun i => s.history (BitVec.ofNat 32 i))
    s.historyNext.toNat s.historyCount.toNat lines

section

variable {s : Editor} {lines cmds : List Line} {cmd : Line} {back : U32}

/-- At first the history stands for no lines. -/
theorem Editor.start_remembers : Editor.start.Remembers [] :=
  Ring.latest_nil _ _ (by decide)

/-- `history_add` of a string makes it the newest line, unless it is empty. -/
theorem Editor.Remembers.historyAdd (h : s.Remembers lines) (hcmd : cmd.Terminated) :
    ∃ s', Shell.historyAdd cmd s = some s' ∧
      s'.Remembers (if cmd 0#32 = 0#8 then lines else cmd :: lines) := by
  obtain ⟨n, hn⟩ := hcmd
  have hsize : historySize.toNat = 16 := rfl
  have hnext : s.historyNext < historySize := h.next_lt
  unfold Shell.historyAdd
  rw [readAt_of_lt (by decide), Option.bind_some, if_pos hnext]
  by_cases hempty : cmd 0#32 = 0#8
  · rw [if_pos hempty, if_pos hempty]
    exact ⟨s, rfl, h⟩
  · obtain ⟨entry, hcopy, hentry, hsame⟩ := strCopy_spec (s.history s.historyNext) hn
    rw [if_neg hempty, if_neg hempty, hcopy, Option.map_some]
    have hnext' : ((s.historyNext + 1#32) % historySize).toNat =
        (s.historyNext.toNat + 1) % historySize.toNat := by
      have hsum : (s.historyNext + 1#32).toNat = s.historyNext.toNat + 1 := by bv_omega
      rw [BitVec.toNat_umod, hsum]
    have hcount' : (if s.historyCount < historySize then s.historyCount + 1#32
          else s.historyCount).toNat = if s.historyCount.toNat < historySize.toNat
            then s.historyCount.toNat + 1 else s.historyCount.toNat := by
      split_ifs <;> bv_omega
    have hself : Line.SameString
        (if BitVec.ofNat 32 s.historyNext.toNat = s.historyNext then entry
          else s.history (BitVec.ofNat 32 s.historyNext.toNat)) cmd := by
      rw [BitVec.ofNat_toNat, BitVec.setWidth_eq, if_pos rfl]
      exact ⟨n, hn, hentry, fun j hj => hsame j (BitVec.le_of_lt hj)⟩
    have hother (i : ℕ) (hi : i < historySize.toNat) (hne : i ≠ s.historyNext.toNat) :
        (if BitVec.ofNat 32 i = s.historyNext then entry else s.history (BitVec.ofNat 32 i)) =
          s.history (BitVec.ofNat 32 i) := if_neg (by bv_omega)
    have hpush := h.push (fun i => if BitVec.ofNat 32 i = s.historyNext then entry
      else s.history (BitVec.ofNat 32 i)) hself hother
    rw [← hnext', ← hcount'] at hpush
    exact ⟨_, rfl, hpush⟩

/-- `history_get` gives the lines that the history stands for. -/
theorem Editor.Remembers.historyGet (h : s.Remembers lines) (back : U32) :
    Option.Rel Line.SameString (Shell.historyGet back s) (lines.take 16)[back.toNat]? := by
  have hsize : historySize.toNat = 16 := rfl
  obtain ⟨hnext, hcount, hslots⟩ := h
  unfold Shell.historyGet
  by_cases hback : s.historyCount ≤ back
  · rw [if_pos hback, List.getElem?_eq_none]
    · exact .none
    · rw [List.length_take]
      bv_omega
  · have hlt : back.toNat < lines.length := by bv_omega
    have hidx : (s.historyNext + historySize - 1#32 - back) % historySize =
        BitVec.ofNat 32 ((s.historyNext.toNat + historySize.toNat - 1 - back.toNat) %
          historySize.toNat) := by
      apply BitVec.eq_of_toNat_eq
      have hsub : (s.historyNext + historySize - 1#32 - back).toNat =
          s.historyNext.toNat + historySize.toNat - 1 - back.toNat := by
        bv_omega
      rw [BitVec.toNat_umod, hsub, BitVec.toNat_ofNat, hsize]
      omega
    rw [if_neg hback, List.getElem?_take_of_lt (by bv_omega), List.getElem?_eq_getElem hlt]
    dsimp only
    rw [hidx]
    exact .some (hslots back.toNat hlt (by bv_omega))

/-- The history after several lines were added. -/
theorem Editor.Remembers.historyAddAll (h : s.Remembers lines)
    (hcmds : ∀ cmd ∈ cmds, cmd.Terminated) :
    ∃ s', Shell.historyAddAll cmds s = some s' ∧ s'.Remembers (recentLines cmds ++ lines) := by
  induction cmds generalizing s lines with
  | nil => exact ⟨s, rfl, h⟩
  | cons cmd cmds ih =>
    obtain ⟨s₁, hadd, hs₁⟩ := h.historyAdd (hcmds cmd (.head _))
    obtain ⟨s₂, hrest, hs₂⟩ := ih hs₁ fun c hc => hcmds c (.tail _ hc)
    refine ⟨s₂, ?_, ?_⟩
    · rw [Shell.historyAddAll, hadd, Option.bind_some, hrest]
    · have hrecent : recentLines (cmd :: cmds) ++ lines =
          recentLines cmds ++ (if cmd 0#32 = 0#8 then lines else cmd :: lines) := by
        unfold recentLines
        by_cases hempty : cmd 0#32 = 0#8
        · simp [hempty]
        · simp [hempty]
      rwa [hrecent]

end

/-- The history is the last 16 commands. After any sequence of lines of at most 127 characters,
`history_get` gives the nonempty ones of them, the last one first, up to 16, and a null pointer
behind them. -/
theorem historyGet_recent (cmds : List Line) (hcmds : ∀ cmd ∈ cmds, cmd.Terminated) :
    ∃ s, historyAddAll cmds .start = some s ∧ ∀ back : U32,
      Option.Rel Line.SameString (historyGet back s) ((recentLines cmds).take 16)[back.toNat]? := by
  obtain ⟨s, hrun, hs⟩ := Editor.start_remembers.historyAddAll hcmds
  rw [List.append_nil] at hs
  exact ⟨s, hrun, hs.historyGet⟩

/-- A line of one character. -/
def oneChar (c : U8) : Line := fun j => if j = 0#32 then c else 0#8

/-- A line of one character ends. -/
theorem oneChar_terminated (c : U8) : (oneChar c).Terminated :=
  Line.terminated_of_zero (i := 1#32) (by decide) (if_neg (by decide))

/-- The lines `a` to `q`, and an empty one. -/
def letterLines : List Line :=
  ((List.range 17).map fun n => oneChar (0x61#8 + BitVec.ofNat 8 n)) ++ [oneChar 0#8]

/-- After the lines `a` to `q` and an empty one, `q` is the newest, `b` is the oldest, and `a` has
fallen out. -/
theorem oneChars_recent : ∃ s, historyAddAll letterLines .start = some s ∧
    (∃ entry, historyGet 0#32 s = some entry ∧ entry.SameString (oneChar 0x71#8)) ∧
    (∃ entry, historyGet 15#32 s = some entry ∧ entry.SameString (oneChar 0x62#8)) ∧
    historyGet 16#32 s = none := by
  have hcmds : ∀ cmd ∈ letterLines, cmd.Terminated := by
    intro cmd hcmd
    rcases List.mem_append.mp hcmd with hcmd | hcmd
    · obtain ⟨n, -, rfl⟩ := List.mem_map.mp hcmd
      exact oneChar_terminated _
    · rw [List.mem_singleton.mp hcmd]
      exact oneChar_terminated _
  obtain ⟨s, hrun, hget⟩ := historyGet_recent letterLines hcmds
  have hfound {back : U32} {line : Line} (hline : ((recentLines letterLines).take 16)[back.toNat]? =
      some line) : ∃ entry, historyGet back s = some entry ∧ entry.SameString line := by
    have hentry := hget back
    rw [hline] at hentry
    generalize historyGet back s = entry at hentry ⊢
    cases hentry with
    | some hsame => exact ⟨_, rfl, hsame⟩
  refine ⟨s, hrun, hfound rfl, hfound rfl, ?_⟩
  have hbehind : ((recentLines letterLines).take 16)[(16#32).toNat]? = none := rfl
  have hnone := hget 16#32
  rw [hbehind] at hnone
  generalize historyGet 16#32 s = entry at hnone ⊢
  cases hnone with
  | none => rfl

end AlderKernel.Shell
