import AlderKernel.Shell.SysinfoCommands
import AlderKernel.Fs.InsertEntry

/-!
# Files named by a path

`catdisk` and `runelf` look for a file by an argument with or without a directory in front. Both
take it apart at the dot; `catdisk` looks for the whole argument first when there is no directory.
-/

namespace AlderKernel.Shell

open Machine Fs

/-- The loop that looks for a character up to the end of the string. -/
def charIndex (c : U8) (s : List U8) : Option ℕ := (cString s).findIdx? fun b => b = c

/-- The first 8 characters in front of the first dot, and the first 3 behind it. -/
def splitName (s : List U8) : Option (List U8 × List U8) :=
  (charIndex 0x2E#8 s).map fun dot =>
    (((cString s).take dot).take 8, ((cString s).drop (dot + 1)).take 3)

section

variable {σ : Type} (a : Ata σ)

/-- The branch of `command_catdisk` and `command_runelf` for an argument with a slash. -/
def findInDirectory (arg : List U8) (slash : ℕ) (s : Fat16 σ) : Option Dirent × Fat16 σ :=
  let rest := (cString arg).drop (slash + 1)
  let dir := fat16FindInRoot a ((cString arg).take slash) [] s
  match dir.1 with
  | none => (none, dir.2)
  | some e =>
    if e.attr &&& 0x10#8 = 0#8 then (none, dir.2) else
    match splitName rest with
    | some (name, ext) => fat16FindInDir a e.cluster name ext dir.2
    | none => fat16FindInDir a e.cluster rest [] dir.2

/-- The entry that `command_catdisk` selects for an argument, once the volume is mounted. -/
def catdiskEntry (arg : List U8) (s : Fat16 σ) : Option Dirent × Fat16 σ :=
  match charIndex 0x2F#8 arg with
  | none =>
    let file := fat16FindInRoot a arg [] s
    match file.1 with
    | some e => (some e, file.2)
    | none =>
      match splitName arg with
      | some (name, ext) => fat16FindInRoot a name ext file.2
      | none => (none, file.2)
  | some slash => findInDirectory a arg slash s

/-- The entry that `command_runelf` selects for an argument, once the volume is mounted. -/
def runelfEntry (arg : List U8) (s : Fat16 σ) : Option Dirent × Fat16 σ :=
  match charIndex 0x2F#8 arg with
  | none =>
    match splitName arg with
    | some (name, ext) => fat16FindInRoot a name ext s
    | none => fat16FindInRoot a arg [] s
  | some slash => findInDirectory a arg slash s

/-- `command_catdisk` up to the selected entry; none also when no volume can be mounted. -/
def commandCatdisk (arg : List U8) (s : Fat16 σ) : Option Dirent × Fat16 σ :=
  let r := mountFat16Partition a s
  if ¬ r.1 then (none, r.2) else catdiskEntry a arg r.2

/-- `command_runelf` up to the selected entry; none also when no volume can be mounted. -/
def commandRunelf (arg : List U8) (s : Fat16 σ) : Option Dirent × Fat16 σ :=
  let r := mountFat16Partition a s
  if ¬ r.1 then (none, r.2) else runelfEntry a arg r.2

end

/-- The argument has no slash, and `names_equal` accepts one of the entries for the whole of it. But
its 8.3 name is another one: there are fewer than 8 characters in front of the first dot, or one of
the 3 behind it is not a space. -/
def WholeNameTaken (arg : List U8) (entries : List DirEntry) : Prop :=
  charIndex 0x2F#8 arg = none ∧ (∃ e ∈ entries, namesEqual e arg [] = true) ∧
    ∃ dot, charIndex 0x2E#8 arg = some dot ∧
      (dot < 8 ∨ ∃ c ∈ ((cString arg).drop (dot + 1)).take 3, c ≠ 0x20#8)

section

variable {name ext name' ext' arg : List U8} {e e' : DirEntry} {entries : List DirEntry}

/-- The name field that `names_equal` looks for. -/
def foldedName (name ext : List U8) : List U8 := (paddedName name ext).map foldCase

/-- The name field is the 8 bytes of the name and the 3 of the extension. -/
theorem nameField_eq (e : DirEntry) :
    nameField e = (List.range 8).map e.byte ++ (List.range 3).map fun i => e.byte (8 + i) := by
  unfold nameField
  rw [show 11 = 8 + 3 from rfl, List.range_add, List.map_append, List.map_map]
  rfl

/-- A part of the name field against a part of the query. -/
theorem all_range_iff {l : List U8} {n : ℕ} {f : ℕ → U8} (hl : l.length = n) :
    ((List.range n).all fun i => f i == foldCase (l.getD i 0#8)) = true ↔
      (List.range n).map f = l.map foldCase := by
  subst hl
  rw [List.all_eq_true, List.ext_getElem_iff]
  simp
  grind

/-- `names_equal` compares the name field with the query in capitals. -/
theorem namesEqual_iff : namesEqual e name ext = true ↔ nameField e = foldedName name ext := by
  have hlen : ((List.range 8).map e.byte).length = ((copyPadded 8 name).map foldCase).length := by
    simp
  unfold namesEqual foldedName paddedName
  rw [nameField_eq, List.map_append, Bool.and_eq_true, all_range_iff (copyPadded_length),
    all_range_iff (copyPadded_length)]
  constructor
  · rintro ⟨hname, hext⟩
    rw [hname, hext]
  · intro h
    exact List.append_inj h hlen

/-- Lists of one length that agree up to the spaces at their ends are the same. -/
theorem eq_of_rdropWhile {l l' : List U8} {c : U8} (hlen : l.length = l'.length)
    (h : l.rdropWhile (fun b => b = c) = l'.rdropWhile fun b => b = c) : l = l' := by
  have hsplit (l : List U8) : l = l.rdropWhile (fun b => b = c) ++
      List.replicate (l.length - (l.rdropWhile fun b => b = c).length) c := by
    have hl : l.rdropWhile (fun b => b = c) ++ l.rtakeWhile (fun b => b = c) = l :=
      List.rdropWhile_append_rtakeWhile
    have hspaces : l.rtakeWhile (fun b => b = c) =
        List.replicate (l.rtakeWhile fun b => b = c).length c := by
      rw [List.eq_replicate_iff]
      refine ⟨rfl, fun b hb => ?_⟩
      simpa using List.mem_rtakeWhile_imp hb
    have hlength := congrArg List.length hl
    rw [List.length_append] at hlength
    rw [show l.length - (l.rdropWhile fun b => b = c).length =
        (l.rtakeWhile fun b => b = c).length by
      omega, ← hspaces, hl]
  rw [hsplit l, hsplit l', h, hlen]

/-- A dirent has kept the name field. -/
theorem nameField_of_fillDirent (h : fillDirent e = fillDirent e') :
    nameField e = nameField e' := by
  have hname := eq_of_rdropWhile (by simp) (congrArg Dirent.name h)
  have hext := eq_of_rdropWhile (by simp) (congrArg Dirent.ext h)
  simp only [Nat.zero_add] at hname
  rw [nameField_eq, nameField_eq, hname, hext]

/-- Two lookups among the same entries, the first one with success, select the same one exactly when
they look for the same name field. -/
theorem find_eq_iff (h : (entries.find? fun e => namesEqual e name ext) = some e) :
    (entries.find? fun e => namesEqual e name' ext').map fillDirent = some (fillDirent e) ↔
      foldedName name ext = foldedName name' ext' := by
  have htaken := List.find?_some h
  have hname : nameField e = foldedName name ext := namesEqual_iff.mp htaken
  constructor
  · intro hsame
    obtain ⟨e', he', hfill⟩ := Option.map_eq_some_iff.mp hsame
    have htaken' := List.find?_some he'
    have hname' : nameField e' = foldedName name' ext' := namesEqual_iff.mp htaken'
    rw [← hname, ← hname', nameField_of_fillDirent hfill]
  · intro hkey
    have hpredicate : (fun e => namesEqual e name' ext') = fun e => namesEqual e name ext := by
      funext e
      rw [Bool.eq_iff_iff, namesEqual_iff, namesEqual_iff, hkey]
    rw [hpredicate, h]
    rfl

/-- A string that does not fill its part of the name field with other characters than spaces. -/
theorem copyPadded_spaces {l : List U8} {len : ℕ} (hl : cString l = l) (hlen : l.length ≤ len) :
    (copyPadded len l).map foldCase = List.replicate len 0x20#8 ↔ ∀ c ∈ l, c = 0x20#8 := by
  have hfold : ∀ c : U8, foldCase c = 0x20#8 ↔ c = 0x20#8 := by decide
  rw [List.eq_replicate_iff, copyPadded, hl, List.take_of_length_le hlen, List.map_append,
    List.forall_mem_append, List.forall_mem_map]
  simp only [hfold]
  constructor
  · rintro ⟨-, hspaces, -⟩
    exact hspaces
  · intro hspaces
    refine ⟨by simp [hlen], hspaces, ?_⟩
    intro c hc
    simp only [List.map_replicate] at hc
    rw [List.eq_of_mem_replicate hc]
    decide

/-- The whole argument and its 8.3 name are looked up in the same way. -/
theorem foldedName_split {dot : ℕ} (hdot : charIndex 0x2E#8 arg = some dot) :
    foldedName arg [] = foldedName (((cString arg).take dot).take 8)
        (((cString arg).drop (dot + 1)).take 3) ↔
      8 ≤ dot ∧ ∀ c ∈ ((cString arg).drop (dot + 1)).take 3, c = 0x20#8 := by
  obtain ⟨hlt, hchar, -⟩ := List.findIdx?_eq_some_iff_getElem.mp hdot
  have hzero (l : List U8) (h : ∀ c ∈ l, c ∈ cString arg) : cString l = l := by
    rw [cString, List.takeWhile_eq_self_iff]
    intro c hc
    have hmem := h c hc
    rw [cString] at hmem
    have hkept := List.mem_takeWhile_imp hmem
    exact hkept
  have hname := hzero (((cString arg).take dot).take 8) fun c hc =>
    List.mem_of_mem_take (List.mem_of_mem_take hc)
  have hext := hzero (((cString arg).drop (dot + 1)).take 3) fun c hc =>
    List.mem_of_mem_drop (List.mem_of_mem_take hc)
  unfold foldedName paddedName
  rw [List.map_append, List.map_append]
  have hspaces : (copyPadded 3 []).map foldCase = List.replicate 3 0x20#8 := by decide
  have hpart : (copyPadded 3 (((cString arg).drop (dot + 1)).take 3)).map foldCase =
      List.replicate 3 0x20#8 ↔ ∀ c ∈ ((cString arg).drop (dot + 1)).take 3, c = 0x20#8 :=
    copyPadded_spaces hext (List.length_take_le _ _)
  constructor
  · intro h
    obtain ⟨hnames, hexts⟩ := List.append_inj h (by simp)
    rw [hspaces, eq_comm, hpart] at hexts
    refine ⟨?_, hexts⟩
    by_contra hshort
    rw [not_le] at hshort
    have hdotChar : (copyPadded 8 arg)[dot]? = some 0x2E#8 := by
      unfold copyPadded
      rw [List.getElem?_append_left (by simp; omega), List.getElem?_take_of_lt hshort,
        List.getElem?_eq_getElem hlt]
      simpa using hchar
    have hpadding : (copyPadded 8 (((cString arg).take dot).take 8))[dot]? = some 0x20#8 := by
      unfold copyPadded
      rw [hname, List.getElem?_append_right (by simp)]
      rw [List.getElem?_replicate, if_pos]
      simp
      omega
    have hat := congrArg (fun l => l[dot]?) hnames
    simp only [List.getElem?_map, hdotChar, hpadding] at hat
    exact absurd hat (by decide)
  · rintro ⟨hlong, hspace⟩
    have hsame : copyPadded 8 arg = copyPadded 8 (((cString arg).take dot).take 8) := by
      unfold copyPadded
      rw [hname, List.take_take, List.take_take]
      simp [hlong]
    rw [hspaces, hpart.mpr hspace, hsame]

end

section

variable {s : Fat16 Disk} {arg : List U8}

/-- A mounted volume leaves the disk as it was. -/
theorem mountFat16Partition_mounted (h : (mountFat16Partition disk s).1 = true) :
    (mountFat16Partition disk s).2.mounted = true ∧ (mountFat16Partition disk s).2.dev = s.dev := by
  unfold mountFat16Partition at *
  rw [mbrReadPartitions_disk] at *
  dsimp only at *
  split_ifs at * with hused
  cases hslot : (List.finRange 4).find? fun i => (tableOf (s.dev 0#32) i).type = 0x06#8 with
  | none => simp [hslot] at h
  | some i =>
    simp only [hslot] at *
    obtain ⟨-, hm, hdev, -⟩ := fat16Mount_disk (Prod.ext h rfl)
    exact ⟨hm, hdev⟩

/-- What the commands select in a mounted volume. -/
theorem entries_eq_iff (hm : s.mounted = true) :
    (catdiskEntry disk arg s).1 = (runelfEntry disk arg s).1 ↔
      ¬ WholeNameTaken arg (Dir.root.entries s.vol s.dev) := by
  have hroot (name ext : List U8) : fat16FindInRoot disk name ext s =
      (((Dir.root.entries s.vol s.dev).find? fun e => namesEqual e name ext).map fillDirent, s) :=
    fat16FindInRoot_disk hm
  unfold catdiskEntry runelfEntry WholeNameTaken
  cases hslash : charIndex 0x2F#8 arg with
  | some slash => simp
  | none =>
    simp only [hroot, true_and]
    cases hdot : charIndex 0x2E#8 arg with
    | none =>
      have hsplit : splitName arg = none := by simp [splitName, hdot]
      simp only [hsplit]
      cases ((Dir.root.entries s.vol s.dev).find? fun e => namesEqual e arg []).map fillDirent <;>
        simp
    | some dot =>
      have hsplit : splitName arg = some (((cString arg).take dot).take 8,
        ((cString arg).drop (dot + 1)).take 3) := by simp [splitName, hdot]
      simp only [hsplit]
      cases hwhole : (Dir.root.entries s.vol s.dev).find? fun e => namesEqual e arg [] with
      | none =>
        rw [List.find?_eq_none] at hwhole
        simp
        grind
      | some e =>
        simp only [Option.map_some]
        rw [eq_comm, find_eq_iff hwhole, foldedName_split hdot]
        have hmem := List.mem_of_find?_eq_some hwhole
        have htaken := List.find?_some hwhole
        grind

/-- `catdisk` and `runelf` select the same entry. For every argument and every content of the disk:
the two commands select the same entry, or both none, unless a volume is mounted whose root
directory has an entry of the whole argument, where `runelf` looks for another name. -/
theorem same_entry_iff (arg : List U8) (s : Fat16 Disk) :
    (commandCatdisk disk arg s).1 = (commandRunelf disk arg s).1 ↔
      ((mountFat16Partition disk s).1 = true →
        ¬ WholeNameTaken arg (Dir.root.entries (mountFat16Partition disk s).2.vol s.dev)) := by
  unfold commandCatdisk commandRunelf
  cases hmount : (mountFat16Partition disk s).1 with
  | false => simp [hmount]
  | true =>
    obtain ⟨hm, hdev⟩ := mountFat16Partition_mounted hmount
    simp only [hmount, not_true, if_false, forall_const]
    rw [← hdev]
    exact entries_eq_iff hm

end

/-- "LONGNAME". -/
def longName : List U8 :=
  [0x4C#8, 0x4F#8, 0x4E#8, 0x47#8, 0x4E#8, 0x41#8, 0x4D#8, 0x45#8]

/-- "LONGNAME.TXT". -/
def longNameTxt : List U8 := longName ++ [0x2E#8, 0x54#8, 0x58#8, 0x54#8]

/-- A directory sector with one file, which has no extension. -/
def longNameSector : Sector :=
  (Buffer.zero : Sector).paste 0 (setDirEntry longName [] attrFile 0#32 0#32)

/-- A disk with a volume whose root directory has this file only. -/
def longNameStart : Fat16 Disk where
  vol := formattedVolume 0#32
  mounted := false
  dev := fun lba =>
    if lba = 0#32 then withEntry .zero 0 (entryBytes 1#8 0x06#8 2048#32 297952#32)
    else if lba = 2048#32 then bootSector 2048#32 297952#32
    else longNameSector
  overrun := false

/-- For "LONGNAME.TXT" the file "LONGNAME" is printed, but another one would be run. -/
theorem longNameTxt_differs :
    (commandCatdisk disk longNameTxt longNameStart).1 ≠
      (commandRunelf disk longNameTxt longNameStart).1 := by
  have hslot : tableOf (longNameStart.dev 0#32) 0 = ⟨1#8, 0x06#8, 2048#32, 297952#32⟩ := by
    have htable := tableOf_withEntry .zero 0 (entryBytes 1#8 0x06#8 2048#32 297952#32)
    have hparse := parseEntry_entryBytes ⟨0, 1#8, 0x06#8, 2048#32, 297952#32⟩
    exact (congrFun htable 0).trans ((Function.update_self _ _ _).trans hparse)
  have hmount : mountFat16Partition disk longNameStart =
      (true, { longNameStart with vol := formattedVolume 2048#32, mounted := true }) := by
    rw [mountFat16Partition_first (congrArg MbrPartition.type hslot), hslot]
    exact fat16Mount_formatted rfl
  have hentry : setDirEntry longName [] attrFile 0#32 0#32 ∈
      Dir.root.entries (formattedVolume 2048#32) longNameStart.dev := by
    have hfirst : slotAt longNameStart.dev (Dir.root.base (formattedVolume 2048#32)) 0 =
        setDirEntry longName [] attrFile 0#32 0#32 := Buffer.slice_paste_self (by decide)
    have hlive := setDirEntry_live (show longName.head? ≠ some 0xE5#8 by decide)
    unfold Dir.entries
    rw [show 16 * Dir.root.sectors (formattedVolume 2048#32) = 511 + 1 from rfl, shownFrom_succ,
      hfirst, hlive.1, hlive.2]
    simp
  have htaken : namesEqual (setDirEntry longName [] attrFile 0#32 0#32) longNameTxt [] = true := by
    decide
  unfold commandCatdisk commandRunelf
  simp only [hmount, not_true, if_false]
  rw [Ne, entries_eq_iff rfl, not_not]
  exact ⟨by decide, ⟨_, hentry, htaken⟩, 8, by decide, by decide⟩

end AlderKernel.Shell
