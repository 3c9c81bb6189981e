import AlderKernel.Shell.EditorRuns

/-!
# Browsing the history

While an entry of the history is shown, the line that was being typed stands in `saved_current`. An
Up key goes one step back at most, and a Down key one step forward until the line is shown again, so
as many Down keys as Up keys bring the line back.
-/

namespace AlderKernel.Shell

open Machine Drivers

/-- The line of `n` characters is shown, or is stashed while an entry of the history is shown. -/
structure Editor.Keeps (line : Line) (n : U32) (s : Editor) : Prop where
  safe : s.Safe
  shown : s.historyBrowseIndex = -1#32 → s.idx = n ∧ ∀ j < n, s.shellBuffer j = line j
  stashed : s.historyBrowseIndex ≠ -1#32 → s.savedCurrent.Copies line n

section

variable {s : Editor} {line newContent : Line} {n browse : U32} {commands : Commands}

/-- `redraw_line` changes the line and its length. -/
theorem redrawLine_kept {r : Editor × List U8} (hr : redrawLine newContent s = some r) :
    r.1.historyBrowseIndex = s.historyBrowseIndex ∧ r.1.savedCurrent = s.savedCurrent := by
  obtain ⟨t, -, rfl⟩ := Option.map_eq_some_iff.mp hr
  exact ⟨rfl, rfl⟩

/-- Showing an entry keeps the stashed line. -/
theorem Editor.Safe.showEntry_keeps (h : s.Safe) (hstashed : s.savedCurrent.Copies line n)
    (hb : browse < s.historyCount) :
    ∃ r, Shell.showEntry browse s = some r ∧ r.1.Keeps line n ∧
      r.1.historyBrowseIndex = browse := by
  have hcount := h.count_le
  have hsize : historySize = 16#32 := rfl
  obtain ⟨r, hrun, hsafe⟩ := h.showEntry hb
  obtain ⟨entry, -, hredraw⟩ := Option.bind_eq_some_iff.mp hrun
  obtain ⟨hbrowse, hsaved⟩ := redrawLine_kept hredraw
  refine ⟨r, hrun, ⟨hsafe, fun hlive => ?_, fun _ => ?_⟩, hbrowse⟩
  · rw [hbrowse] at hlive
    dsimp only at hlive
    exact absurd hlive (by bv_omega)
  · rw [hsaved]
    exact hstashed

/-- After the first part of an Up key the line is stashed. -/
theorem Editor.Keeps.stashLine (h : s.Keeps line n) :
    ∃ s', Shell.stashLine s = some s' ∧ s'.Keeps line n ∧ s'.savedCurrent.Copies line n ∧
      s'.historyBrowseIndex = s.historyBrowseIndex ∧ s'.historyCount = s.historyCount := by
  obtain ⟨s', hrun, hsafe, hbrowse, hcount⟩ := h.safe.stashLine
  by_cases hlive : s.historyBrowseIndex = -1#32
  · obtain ⟨rfl, hline⟩ := h.shown hlive
    obtain ⟨ended, hwrite, hend⟩ := h.safe.ended
    obtain ⟨saved, hcopy, hsaved, hsame⟩ := strCopy_spec s.savedCurrent hend
    have hstash : Shell.stashLine s =
        some { s with shellBuffer := ended, savedCurrent := saved } := by
      unfold Shell.stashLine
      rw [if_pos hlive, hwrite, Option.bind_some, hcopy, Option.map_some]
    obtain rfl := Option.some.inj (hstash.symm.trans hrun)
    have hended (j : U32) (hj : j < s.idx) : ended j = line j := by
      rw [writeAt_of_lt hend.lt] at hwrite
      obtain rfl := Option.some.inj hwrite
      exact (if_neg (BitVec.ne_of_lt hj)).trans (hline j hj)
    have hcopies : saved.Copies line s.idx :=
      ⟨hsaved, fun j hj => (hsame j (BitVec.le_of_lt hj)).trans (hended j hj)⟩
    exact ⟨_, hrun, ⟨hsafe, fun _ => ⟨rfl, hended⟩, fun _ => hcopies⟩, hcopies, rfl, rfl⟩
  · obtain rfl : s = s' := Option.some.inj ((if_neg hlive).symm.trans hrun)
    exact ⟨s, hrun, h, h.stashed hlive, rfl, rfl⟩

/-- An Up key keeps the line and goes at most one step back. -/
theorem Editor.Keeps.arrowUp (h : s.Keeps line n) :
    ∃ r, Shell.arrowUp s = some r ∧ r.1.Keeps line n ∧
    r.1.historyBrowseIndex.toInt ≤ s.historyBrowseIndex.toInt + 1 := by
  obtain ⟨s', hrun, hkeeps, hstashed, hbrowse, hcount⟩ := h.stashLine
  have hmax := h.safe.count_le
  have hsize : historySize = 16#32 := rfl
  unfold Shell.arrowUp
  rw [hrun, Option.bind_some, hbrowse, hcount]
  split_ifs with hlt
  · obtain ⟨r, hshow, hr, hindex⟩ := hkeeps.safe.showEntry_keeps hstashed (hcount ▸ hlt)
    refine ⟨r, hshow, hr, ?_⟩
    rw [hindex, BitVec.toInt_eq_toNat_cond, BitVec.toInt_eq_toNat_cond]
    split_ifs <;> bv_omega
  · refine ⟨_, rfl, hkeeps, ?_⟩
    rw [hbrowse]
    omega

/-- A Down key keeps the line and goes one step forward, unless the line is shown already. -/
theorem Editor.Keeps.arrowDown (h : s.Keeps line n) : ∃ r, Shell.arrowDown s = some r ∧
    r.1.Keeps line n ∧
    r.1.historyBrowseIndex.toInt ≤ max (-1) (s.historyBrowseIndex.toInt - 1) := by
  have hge := h.safe.browse_ge
  have hlt := h.safe.browse_lt
  unfold Shell.arrowDown
  split_ifs with hpos hzero
  · have hsign : 0 < s.historyBrowseIndex.toInt := BitVec.slt_iff_toInt_lt.mp hpos
    have hlive : s.historyBrowseIndex ≠ -1#32 := by
      intro hlive
      rw [hlive] at hsign
      exact absurd hsign (by decide)
    rw [BitVec.toInt_eq_toNat_cond] at hsign hlt
    have hb : s.historyBrowseIndex - 1#32 < s.historyCount := by
      split_ifs at hsign hlt <;> bv_omega
    obtain ⟨r, hshow, hr, hindex⟩ := h.safe.showEntry_keeps (h.stashed hlive) hb
    refine ⟨r, hshow, hr, ?_⟩
    rw [hindex, BitVec.toInt_eq_toNat_cond, BitVec.toInt_eq_toNat_cond]
    split_ifs at hsign hlt ⊢ <;> bv_omega
  · have hlive : s.historyBrowseIndex ≠ -1#32 := by
      rw [hzero]
      decide
    obtain ⟨hsaved, hsame⟩ := h.stashed hlive
    obtain ⟨buffer, hrun, hcopied⟩ :=
      redrawLine_spec { s with historyBrowseIndex := -1#32 } hsaved
    obtain ⟨r, hrun', hsafe⟩ := h.safe.endBrowse.redrawLine ⟨n, hsaved⟩
    obtain rfl := Option.some.inj (hrun.symm.trans hrun')
    refine ⟨_, hrun, ⟨hsafe, fun _ => ⟨rfl, fun j hj => (hcopied j hj).trans (hsame j hj)⟩,
      fun _ => h.stashed hlive⟩, ?_⟩
    show (-1#32).toInt ≤ _
    exact le_max_left _ _
  · have hle : s.historyBrowseIndex.toInt ≤ 0 := by
      rw [BitVec.slt_iff_toInt_lt, BitVec.toInt_zero] at hpos
      omega
    have hne : s.historyBrowseIndex.toInt ≠ 0 := fun hz => hzero (BitVec.eq_of_toInt_eq hz)
    refine ⟨_, rfl, h, ?_⟩
    show s.historyBrowseIndex.toInt ≤ _
    omega

/-- Down keys, as many as there are steps to go forward, bring the line back. -/
theorem Editor.Keeps.downs (downs : List Commands) (h : s.Keeps line n)
    (hle : s.historyBrowseIndex.toInt + 1 ≤ downs.length) :
    ∃ r, processKeys (downs.map (·, keyArrowDown)) s = some r ∧ r.1.Keeps line n ∧
      r.1.historyBrowseIndex = -1#32 := by
  induction downs generalizing s with
  | nil =>
    have hge := h.safe.browse_ge
    have hneg : (-1#32).toInt = -1 := by decide
    rw [List.length_nil] at hle
    have heq : s.historyBrowseIndex = -1#32 := BitVec.eq_of_toInt_eq (by omega)
    exact ⟨(s, []), rfl, h, heq⟩
  | cons commands downs ih =>
    obtain ⟨r, hrun, hr, hstep⟩ := h.arrowDown
    rw [List.length_cons] at hle
    obtain ⟨rest, hrest, hkeeps⟩ := ih hr (by omega)
    have hkey : processKey commands keyArrowDown s = some r := hrun
    refine ⟨(rest.1, r.2 ++ rest.2), ?_, hkeeps⟩
    rw [List.map_cons, processKeys, hkey, Option.bind_some, hrest, Option.map_some]

/-- So they do after Up keys, when there are at least as many of them. -/
theorem Editor.Keeps.ups (ups downs : List Commands) (h : s.Keeps line n)
    (hle : s.historyBrowseIndex.toInt + 1 + ups.length ≤ downs.length) :
    ∃ r, processKeys (ups.map (·, keyArrowUp) ++ downs.map (·, keyArrowDown)) s = some r ∧
      r.1.Keeps line n ∧ r.1.historyBrowseIndex = -1#32 := by
  induction ups generalizing s with
  | nil =>
    rw [List.length_nil] at hle
    exact h.downs downs (by omega)
  | cons commands ups ih =>
    obtain ⟨r, hrun, hr, hstep⟩ := h.arrowUp
    rw [List.length_cons] at hle
    obtain ⟨rest, hrest, hkeeps⟩ := ih hr (by omega)
    have hkey : processKey commands keyArrowUp s = some r := hrun
    refine ⟨(rest.1, r.2 ++ rest.2), ?_, hkeeps⟩
    rw [List.map_cons, List.cons_append, processKeys, hkey, Option.bind_some, hrest,
      Option.map_some]

end

/-- The arrow keys lose no typing. In every state that keys lead to and in which the line is shown,
Up keys and then at least as many Down keys leave the line, its length and the browse position as
they were. -/
theorem arrows_keep_line {keys : List (Commands × U8)} {s : Editor} {printed : List U8}
    (hrun : processKeys keys .start = some (s, printed)) (hlive : s.historyBrowseIndex = -1#32)
    (ups downs : List Commands) (hle : ups.length ≤ downs.length) :
    ∃ s' printed', processKeys (ups.map (·, keyArrowUp) ++ downs.map (·, keyArrowDown)) s =
        some (s', printed') ∧
      s'.idx = s.idx ∧ (∀ j < s.idx, s'.shellBuffer j = s.shellBuffer j) ∧
      s'.historyBrowseIndex = -1#32 := by
  obtain ⟨r, hrun', hsafe⟩ : Safely (processKeys keys .start) := Editor.start_safe.processKeys
  obtain rfl := Option.some.inj (hrun'.symm.trans hrun)
  have hkeeps : s.Keeps s.shellBuffer s.idx :=
    ⟨hsafe, fun _ => ⟨rfl, fun _ _ => rfl⟩, fun hne => absurd hlive hne⟩
  have hneg : (-1#32).toInt = -1 := by decide
  obtain ⟨r', hrun'', hr', hbrowse⟩ := hkeeps.ups ups downs (by rw [hlive]; omega)
  obtain ⟨hidx, hline⟩ := hr'.shown hbrowse
  exact ⟨r'.1, r'.2, hrun'', hidx, hline, hbrowse⟩

/-- Commands that do nothing. -/
def noCommands : Commands := ⟨fun line => (line, []), []⟩

/-- After the line "a" was run and "b" typed, two Up keys and two Down keys leave the "b". -/
theorem typed_keeps_line : ∃ s printed s' printed',
    processKeys [(noCommands, 0x61#8), (noCommands, 10#8), (noCommands, 0x62#8)] .start =
      some (s, printed) ∧ s.idx = 1#32 ∧ s.historyCount = 1#32 ∧
      processKeys [(noCommands, keyArrowUp), (noCommands, keyArrowUp), (noCommands, keyArrowDown),
        (noCommands, keyArrowDown)] s = some (s', printed') ∧
      s'.idx = 1#32 ∧ s'.shellBuffer 0#32 = 0x62#8 ∧ s'.historyBrowseIndex = -1#32 := by
  obtain ⟨⟨s, printed⟩, hrun, -⟩ : Safely (processKeys
      [(noCommands, 0x61#8), (noCommands, 10#8), (noCommands, 0x62#8)] .start) :=
    Editor.start_safe.processKeys
  have hstate : (processKeys [(noCommands, 0x61#8), (noCommands, 10#8), (noCommands, 0x62#8)]
      .start).map (fun r => (r.1.idx, r.1.historyCount, r.1.historyBrowseIndex,
        r.1.shellBuffer 0#32)) = some (1#32, 1#32, -1#32, 0x62#8) := by
    decide
  rw [hrun, Option.map_some, Option.some.injEq] at hstate
  obtain ⟨hidx, hcount, hlive, hchar⟩ : s.idx = 1#32 ∧ s.historyCount = 1#32 ∧
      s.historyBrowseIndex = -1#32 ∧ s.shellBuffer 0#32 = 0x62#8 := by
    simpa using hstate
  obtain ⟨s', printed', hkeys, hidx', hline, hbrowse⟩ := arrows_keep_line hrun hlive
    [noCommands, noCommands] [noCommands, noCommands] le_rfl
  refine ⟨s, printed, s', printed', hrun, hidx, hcount, hkeys, hidx'.trans hidx, ?_, hbrowse⟩
  rw [hline 0#32 (by rw [hidx]; decide), hchar]

end AlderKernel.Shell
