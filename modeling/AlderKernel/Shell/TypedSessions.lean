import AlderKernel.Shell.Sessions

/-!
# From the keyboard to the files

The keyboard, the shell and the kernel behind it in one run. What is typed decides what is on the
screen: the characters as the line editor shows them, and behind each line what the session says for
the tree in memory and the tree on the disk.
-/

namespace AlderKernel.Shell

open Machine Drivers Mm Fs

/-- A key, for what it does to the line alone. -/
def silentKey (c : U8) : Press := { toBehaviour := silent, key := c }

/-- The line editor after characters. -/
def editorAfter (cs : List U8) : LineEditor :=
  cs.foldl (fun e c => (e.press (silentKey c)).1) .start

/-- What the screen shows for characters, when the lines that they enter show the texts. -/
def echoed : List U8 → LineEditor → List (List U8) → List U8
  | [], _, _ => []
  | c :: cs, e, texts =>
    if c = 10#8 then
      chars "\n" ++ texts.headD [] ++ echoed cs (e.press (silentKey c)).1 texts.tail
    else (e.press (silentKey c)).2 ++ echoed cs (e.press (silentKey c)).1 texts

section

variable {σ : Type} (a : Drive σ)

/-- What a line prints on a kernel. -/
def lineText (k : Option (Kernel σ)) (line : List U8) : List U8 :=
  (k.bind (runLine a line)).elim [] fun r => textOf r.1

/-- The path in the prompt behind a line. -/
def cwdBehind (k : Option (Kernel σ)) (line : List U8) : List U8 :=
  ((k.bind (runLine a line)).bind fun r => vfsPrintCwdPath r.2.vfs).getD []

/-- What the commands do on a kernel, when the line is the one that is entered next. -/
def behaviourAt (k : Option (Kernel σ)) (line : List U8) : Behaviour where
  commands := {
    interpretCommand := fun input => (interpretCommand input).elim (input, []) fun r =>
      (r.1, (k.bind fun k => r.2.elim (some ([], k)) (runCommand a k)).elim [] fun r => textOf r.1)
    cwdPath := cwdBehind a k line }
  run := lineText a k
  runs := fun {input n} h => by
    obtain ⟨line', hrun, -⟩ := interpretCommand_spec h
    simp only [hrun, Option.elim_some]
    rfl

/-- The kernel behind the keyboard: it has run the lines that the characters have entered. -/
def kernelWorld (k : Kernel σ) : World := fun before =>
  behaviourAt a ((runLines a (enteredLines before .start) k).map Prod.snd) (editorAfter before).line

end

section

variable {σ : Type} {a : Drive σ} {world : World} {before cs : List U8} {e : LineEditor}
  {lines : List (List U8)} {line : List U8} {k k' : Kernel σ} {p : Press}

/-- The line editor after one more character. -/
theorem editorAfter_concat (cs : List U8) (c : U8) :
    editorAfter (cs ++ [c]) = ((editorAfter cs).press (silentKey c)).1 := by
  simp [editorAfter]

/-- The keys lead there with any commands. -/
theorem presses_editorAfter (world : World) (cs : List U8) :
    (LineEditor.start.presses (world.presses [] cs)).1 = editorAfter cs := by
  induction cs using List.reverseRecOn with
  | nil => rfl
  | append_singleton cs c ih =>
    rw [World.presses_append, LineEditor.presses_append, List.nil_append, editorAfter_concat, ← ih]
    exact LineEditor.press_congr (p := { toBehaviour := world cs, key := c })
      (q := silentKey c) rfl _

/-- Keys other than Enter print the same with any commands. -/
theorem press_printed_congr {p q : Press} (h : p.key = q.key) (hkey : p.key ≠ 10#8)
    (e : LineEditor) :
    (e.press p).2 = (e.press q).2 := by
  unfold LineEditor.press
  rw [← h, if_neg hkey, if_neg hkey]

/-- Lines after others. -/
theorem runLines_concat {texts : List (List U8)} {text : List U8}
    (h : runLines a lines k = some (texts, k')) {k'' : Kernel σ}
    (hline : runPrompted a line k' = some (text, k'')) :
    runLines a (lines ++ [line]) k = some (texts ++ [text], k'') := by
  induction lines generalizing k texts with
  | nil =>
    obtain ⟨rfl, rfl⟩ := Prod.mk.inj (Option.some.inj h)
    simp [runLines, hline]
  | cons first lines ih =>
    obtain ⟨r, hfirst, hrest⟩ := Option.bind_eq_some_iff.mp h
    obtain ⟨⟨texts', k₁⟩, hlines, hpair⟩ := Option.map_eq_some_iff.mp hrest
    obtain ⟨rfl, rfl⟩ := Prod.mk.inj hpair
    simp [runLines, hfirst, ih hlines]

/-- Enter runs the line. -/
theorem press_newline (hkey : p.key = 10#8) (e : LineEditor) : e.press p = e.enter p := by
  unfold LineEditor.press
  rw [hkey, if_neg (by decide), if_neg (by decide), if_neg (by decide), if_pos rfl]

/-- What the world behind the keyboard prints for a line. -/
theorem behaviourAt_text {text : List U8} (h : runPrompted a line k = some (text, k')) :
    lineText a (some k) line ++ promptText (cwdBehind a (some k) line) = text := by
  obtain ⟨r, hrun, hprompt⟩ := Option.bind_eq_some_iff.mp h
  obtain ⟨path, hpath, hpair⟩ := Option.map_eq_some_iff.mp hprompt
  obtain ⟨rfl, -⟩ := Prod.mk.inj hpair
  simp [lineText, cwdBehind, hrun, hpath]

/-- The lines entered for a further character. -/
theorem enteredLines_next (before : List U8) (c : U8) : enteredLines (before ++ [c]) .start =
    enteredLines before .start ++ if c = 10#8 then [(editorAfter before).line] else [] := by
  rw [enteredLines_concat (fun _ => silent) [], presses_editorAfter]

end

section

variable {start : Pmm} {live : Set U32} {bytes : ClientBytes} {v₀ : Vfs} {total : U32}
  {k k₀ : Kernel Disk} {x : Session} {texts : List (List U8)}

/-- Typing on. The kernel has run the lines that were entered before. What further characters print
is what the session says for the lines that they enter. -/
theorem Running.echoes (before cs : List U8) (h : Running start live bytes v₀ total k x)
    (hpos : ∀ q, start.Free q → q ≠ 0#32) (htree : v₀.Tree) (hroot : v₀.IsDir v₀.root)
    (hlarge : 2048#32 < total) (hsize : Admitted (total - 2048#32))
    (hk : runLines (drive total) (enteredLines before .start) k₀ = some (texts, k))
    (hplain : ∀ line ∈ enteredLines cs (editorAfter before), ∀ call, callOf line = some call →
      call.Plain) :
    ∃ texts, SessionShows (ramOf v₀) total x (enteredLines cs (editorAfter before)) texts ∧
      ((editorAfter before).presses ((kernelWorld (drive total) k₀).presses before cs)).2 =
        echoed cs (editorAfter before) texts := by
  induction cs generalizing before k x texts with
  | nil => exact ⟨[], .nil x, rfl⟩
  | cons c cs ih =>
    set e := editorAfter before with he
    let p : Press := { toBehaviour := kernelWorld (drive total) k₀ before, key := c }
    have hkey : (silentKey c).key = p.key := rfl
    have hnext : editorAfter (before ++ [c]) = (e.press p).1 :=
      (editorAfter_concat before c).trans (LineEditor.press_congr hkey e)
    have hsilent : (e.press (silentKey c)).1 = editorAfter (before ++ [c]) :=
      (editorAfter_concat before c).symm
    have hworld : kernelWorld (drive total) k₀ before =
        behaviourAt (drive total) (some k) e.line := by
      unfold kernelWorld
      rw [hk]
      rfl
    have hentered : enteredLines (c :: cs) e =
        (if c = 10#8 then [e.line] else []) ++ enteredLines cs (editorAfter (before ++ [c])) := by
      rw [← hsilent]
      rfl
    rw [hentered] at hplain ⊢
    have hlines := enteredLines_next before c
    have hprinted : (e.presses ((kernelWorld (drive total) k₀).presses before (c :: cs))).2 =
        (e.press p).2 ++ ((editorAfter (before ++ [c])).presses
          ((kernelWorld (drive total) k₀).presses (before ++ [c]) cs)).2 := by
      rw [hnext]
      rfl
    rw [hprinted]
    by_cases henter : c = 10#8
    · rw [if_pos henter] at hlines hplain ⊢
      obtain ⟨text, k', hrun, hrunning, hshows⟩ :=
        h.line hpos htree hroot hlarge hsize (hplain e.line List.mem_cons_self)
      have hk' := runLines_concat hk hrun
      rw [← hlines] at hk'
      obtain ⟨texts', hsession, hrest⟩ := ih (before ++ [c]) hrunning hk' fun line hline =>
        hplain line (List.mem_cons_of_mem _ hline)
      refine ⟨_, .cons hshows hsession, ?_⟩
      have hbehaviour := behaviourAt_text hrun
      have hpress : (e.press p).2 = chars "\n" ++ (lineText (drive total) (some k) e.line ++
          promptText (cwdBehind (drive total) (some k) e.line)) := by
        rw [press_newline henter, LineEditor.enter, List.append_assoc]
        dsimp only [p]
        rw [hworld]
        rfl
      rw [hrest, hpress, hbehaviour, echoed, if_pos henter, hsilent]
      rfl
    · rw [if_neg henter] at hlines hplain ⊢
      rw [List.append_nil] at hlines
      rw [List.nil_append] at hplain ⊢
      obtain ⟨texts', hsession, hrest⟩ := ih (before ++ [c]) h (hlines ▸ hk) hplain
      refine ⟨texts', hsession, ?_⟩
      have hpress : (e.press p).2 = (e.press (silentKey c)).2 :=
        press_printed_congr hkey.symm henter e
      rw [hrest, hpress, echoed, if_neg henter, hsilent]

/-- A volume that was formatted on the whole drive, and on which calls have been made, holds the
tree of the calls that succeeded. -/
theorem holdsTree_run {d d₁ : Disk} {first count : U32} {s s₀ s₁ : Fat16 Disk}
    {log : List (Call × Result)}
    (hpart : doMkpart (drive total) d = (some (first, count), d₁))
    (hfs : doMkfs disk first count d₁ = (true, s.dev))
    (hmount : fat16Mount disk first s = (true, s₀)) (hcalls : CallRun OnKnown s₀ s₁ log)
    (hroom : allocatedClusters s₁.vol s₁.dev ≤ (clusterCount count).toNat) :
    2048#32 < total ∧ Admitted (total - 2048#32) ∧
      HoldsTree total s₁.dev (treeOf (succeeded log)) := by
  obtain ⟨rfl, rfl, hlarge, htable⟩ := doMkpart_disk hpart
  obtain ⟨hdev, hsize⟩ := fat16Format_disk hfs
  obtain ⟨hm, hs⟩ := stores_fresh hfs hmount
  have hslot : tableOf (d₁ 0#32) 0 = wholeDrive total := by rw [htable, Function.update_self]
  have hboot : s.dev 2048#32 = bootSector 2048#32 (total - 2048#32) := hdev ▸ formattedDisk_boot
  have hmounted := fat16Mount_formatted hboot
  obtain rfl := (Prod.mk.inj (hmount.symm.trans hmounted)).2
  have hfresh : HoldsTree total s.dev [] := by
    rw [hdev]
    exact holdsTree_formatted hslot
  obtain ⟨hm₁, -⟩ := hcalls.stores (fun _ _ h => h) hm hs
  refine ⟨hlarge, hsize, holdsTree_calls hm hfresh hs hcalls fun next hused => ?_⟩
  have hbound := hsize.2.2
  rw [hm₁.vol, hused.allocated, toNat_clusterCount hsize] at hroom
  omega

/-- From the keyboard to the files. The kernel was booted with memory, and calls have made files on
a freshly formatted volume. In every interleaving of keyboard interrupts with the shell, as long as
no key is dropped and plain commands are typed: the shell has taken the characters of the scancodes
up to those that wait, and the screen shows for them what the line editor echoes and, behind each
line that was entered, what the session says for the tree in memory and for the tree that the calls
have made on the disk. -/
theorem typed_session_shows {m : Memory} {kernelEnd multibootMagic multibootInfoAddr : U32}
    {turns : ℕ} {boot : Pmm} {v : Vfs} {d d₁ : Disk} {first count : U32} {s s₀ s₁ : Fat16 Disk}
    {calls : List (Call × Result)} {scancodes taken printed : List U8} {log : List KeyEvent}
    {commands : List ShellCommand} {system : System}
    (hboot : kernelStart m kernelEnd turns multibootMagic multibootInfoAddr boot = some v)
    (hroot : v.root ≠ 0#32) (hpart : doMkpart (drive total) d = (some (first, count), d₁))
    (hfs : doMkfs disk first count d₁ = (true, s.dev))
    (hmount : fat16Mount disk first s = (true, s₀)) (hcalls : CallRun OnKnown s₀ s₁ calls)
    (hroom : allocatedClusters s₁.vol s₁.dev ≤ (clusterCount count).toNat)
    (h : TypingRun (kernelWorld (drive total) ⟨v, s₁⟩) scancodes log taken printed commands system)
    (hnone : NoneDropped log) (hplain : ∀ call ∈ commandsOf taken, call.Plain) :
    ∃ waiting texts, decode scancodes .initial = taken ++ waiting ∧
      (system.keyboard.buffer.tail = system.keyboard.buffer.head → waiting = []) ∧
      SessionShows (ramOf v) total ⟨[], treeOf (succeeded calls)⟩
        (enteredLines taken .start) texts ∧
      printed = echoed taken .start texts := by
  obtain ⟨hlarge, hsize, hholds⟩ := holdsTree_run hpart hfs hmount hcalls hroom
  obtain ⟨start, live, bytes, hpmm, htree, hdir, -, hrunning⟩ := running_booted hboot hroot hholds
  obtain ⟨waiting, hdecode, hempty⟩ := h.waiting hnone
  obtain ⟨-, hprinted⟩ := h.implements
  obtain ⟨texts, hsession, hechoed⟩ := hrunning.echoes [] taken
    (free_ne_zero hpmm) htree hdir hlarge hsize rfl fun line hline call hcall =>
      hplain call (List.mem_filterMap.mpr ⟨line, hline, hcall⟩)
  exact ⟨waiting, texts, hdecode, hempty, hsession, hprinted.trans hechoed⟩

end

/-- A drive that is formatted, with one file on it. -/
theorem notedDrive : ∃ d₁ s s₀ s₁,
    doMkpart (drive 300000#32) (fun _ => .zero) = (some (2048#32, 297952#32), d₁) ∧
      doMkfs disk 2048#32 297952#32 d₁ = (true, s.dev) ∧
      fat16Mount disk 2048#32 s = (true, s₀) ∧ CallRun OnKnown s₀ s₁ [(note, .file)] ∧
      allocatedClusters s₁.vol s₁.dev ≤ (clusterCount 297952#32).toNat := by
  obtain ⟨d₁, hmkpart, -⟩ :=
    doMkpart_drive (show 2048#32 < 300000#32 by decide) (fun _ => .zero)
  have hfs : doMkfs disk 2048#32 297952#32 d₁ = (true, _) :=
    fat16Format_of_admitted _ _ (by simp [Admitted]) d₁
  obtain ⟨s, hs⟩ : ∃ s : Fat16 Disk, s.dev = formattedDisk 2048#32 297952#32 d₁ :=
    ⟨⟨formattedVolume 0#32, false, _, false⟩, rfl⟩
  have hmount := fat16Mount_formatted (p := 2048#32) (s := s) (hs ▸ formattedDisk_boot)
  rw [← hs] at hfs
  obtain ⟨hm₀, hs₀⟩ := stores_fresh hfs hmount
  have hclusters : note.clusters = 1 := by simp [note, Call.clusters, clustersFor]
  obtain ⟨first, s₁, hr, hm, hs₁⟩ :=
    hs₀.succeeds hm₀ note (.inl rfl) (by omega) (entries_lt (by simp))
  refine ⟨d₁, s, _, s₁, hmkpart, hfs, hmount, .call .start (.inl rfl) hr, ?_⟩
  rw [hm.vol, hs₁.used.allocated, hclusters]
  decide

/-- The keys A and Enter, on a kernel with a file on its disk. -/
theorem typed_session_a : ∃ v s₁ system printed texts,
    TypingRun (kernelWorld (drive 300000#32) ⟨v, s₁⟩) [0x1E#8, 0x1C#8]
      [.accepted 97#8, .accepted 10#8, .readHead, .returned 97#8, .readHead, .returned 10#8]
      [97#8, 10#8] printed [.unknown [97#8]] system ∧
    SessionShows (ramOf v) 300000#32 ⟨[], treeOf (succeeded [(note, .file)])⟩ [[97#8]] texts ∧
    printed = echoed [97#8, 10#8] .start texts := by
  obtain ⟨v, hboot, hroot⟩ := kernelStart_oneRegion
  obtain ⟨d₁, s, s₀, s₁, hpart, hfs, hmount, hcalls, hroom⟩ := notedDrive
  let world := kernelWorld (drive 300000#32) ⟨v, s₁⟩
  have hkeys := ((.boot : TypingRun world ..).interrupt 0x1E#8).interrupt 0x1C#8
  have hfirst := ((((hkeys.access false rfl).access false rfl).access false rfl).access false
    rfl).access false rfl
  have ha := TypingRun.turn hfirst false (c := 97#8) rfl rfl
  have hsecond := ((((ha.access false rfl).access false rfl).access false rfl).access false
    rfl).access false rfl
  obtain ⟨e, hrun, -⟩ := hsecond.implements.1.press { toBehaviour := world [97#8], key := 10#8 }
  have henter : TypingRun world [0x1E#8, 0x1C#8]
      [.accepted 97#8, .accepted 10#8, .readHead, .returned 97#8, .readHead, .returned 10#8]
      [97#8, 10#8] _ [.unknown [97#8]] _ := TypingRun.turn hsecond false (c := 10#8) rfl hrun
  have hcommands : commandsOf [97#8, 10#8] = [.unknown [97#8]] := by decide
  obtain ⟨-, texts, -, -, hsession, hprinted⟩ := typed_session_shows hboot hroot hpart hfs hmount
    hcalls hroom henter (by unfold NoneDropped; decide) (by
      rw [hcommands]
      intro call hcall
      obtain rfl := List.mem_singleton.mp hcall
      trivial)
  exact ⟨v, s₁, _, _, texts, henter, hsession, hprinted⟩

end AlderKernel.Shell
