import AlderKernel.Shell.FsCommands
import AlderKernel.Shell.Util

/-!
# The interpreter of the shell

`kernel/shell/interpreter.c`: a line is split at its first space, and the first part selects
the command. What is run, and with which argument, is given here as a grammar of lines. `loop` hands
its argument back to the interpreter, so a line can nest commands; each level takes at least five
characters.
-/

namespace AlderKernel.Shell

open Machine Drivers

/-- A call that `interpret_command` makes. -/
inductive ShellCommand where
  | help
  | clear
  | about
  | halt
  | echo (args : List U8)
  | uname (option : Option (List U8))
  | reqSyscallop (arg : Option (List U8))
  | memtest
  | ls (arg : Option (List U8))
  | cd (arg : Option (List U8))
  | pwd
  | cat (arg : Option (List U8))
  | meminfo
  | loop (arg : Option (List U8))
  | diskinfo
  | partinfo
  | mkpart
  | mkfs
  | install
  | lsdisk (arg : Option (List U8))
  | catdisk (arg : Option (List U8))
  | runelf (arg : Option (List U8))
  /-- No command of that name. -/
  | unknown (input : List U8)
  deriving DecidableEq

/-- The first loop of `split_args`: on to a space or to the end. -/
def skipWord (input : Line) : ℕ → U32 → Option U32
  | 0, _ => none
  | turns + 1, p =>
    (readAt input p).bind fun c =>
      if c ≠ 0#8 ∧ c ≠ 0x20#8 then skipWord input turns (p + 1#32) else some p

/-- The second loop of `split_args`: on behind the spaces. -/
def skipSpaces (input : Line) : ℕ → U32 → Option U32
  | 0, _ => none
  | turns + 1, p =>
    (readAt input p).bind fun c =>
      if c = 0x20#8 then skipSpaces input turns (p + 1#32) else some p

/-- `split_args`: the line after it, and where the argument starts. -/
def splitArgs (input : Line) : Option (Line × Option U32) :=
  (skipWord input (shellBufferSize.toNat + 1) 0#32).bind fun p =>
    (readAt input p).bind fun c =>
      if c ≠ 0x20#8 then some (input, none) else
      (writeAt input p 0#8).bind fun input =>
        (skipSpaces input (shellBufferSize.toNat + 1) (p + 1#32)).bind fun q =>
          (readAt input q).map fun c => (input, if c = 0#8 then none else some q)

/-- The comparisons of `interpret_command`. -/
def selectCommand (input : List U8) (args : Option (List U8)) : ShellCommand :=
  if strcmp input (chars "help") = 0 then .help
  else if strcmp input (chars "clear") = 0 then .clear
  else if strcmp input (chars "about") = 0 then .about
  else if strcmp input (chars "halt") = 0 then .halt
  else if strcmp input (chars "echo") = 0 then .echo (args.getD [])
  else if strcmp input (chars "uname") = 0 then .uname args
  else if strcmp input (chars "req-syscallop") = 0 then .reqSyscallop args
  else if strcmp input (chars "memtest") = 0 then .memtest
  else if strcmp input (chars "ls") = 0 then .ls args
  else if strcmp input (chars "cd") = 0 then .cd args
  else if strcmp input (chars "pwd") = 0 then .pwd
  else if strcmp input (chars "cat") = 0 then .cat args
  else if strcmp input (chars "meminfo") = 0 then .meminfo
  else if strcmp input (chars "loop") = 0 then .loop args
  else if strcmp input (chars "diskinfo") = 0 then .diskinfo
  else if strcmp input (chars "partinfo") = 0 then .partinfo
  else if strcmp input (chars "mkpart") = 0 then .mkpart
  else if strcmp input (chars "mkfs") = 0 then .mkfs
  else if strcmp input (chars "install") = 0 then .install
  else if strcmp input (chars "lsdisk") = 0 then .lsdisk args
  else if strcmp input (chars "catdisk") = 0 then .catdisk args
  else if strcmp input (chars "runelf") = 0 then .runelf args
  else .unknown input

/-- The names that `interpret_command` knows, in the order of its comparisons, with their
commands. -/
def commandTable (args : Option (List U8)) : List (List U8 × ShellCommand) :=
  [(chars "help", .help), (chars "clear", .clear), (chars "about", .about), (chars "halt", .halt),
    (chars "echo", .echo (args.getD [])), (chars "uname", .uname args),
    (chars "req-syscallop", .reqSyscallop args), (chars "memtest", .memtest),
    (chars "ls", .ls args), (chars "cd", .cd args), (chars "pwd", .pwd), (chars "cat", .cat args),
    (chars "meminfo", .meminfo), (chars "loop", .loop args), (chars "diskinfo", .diskinfo),
    (chars "partinfo", .partinfo), (chars "mkpart", .mkpart), (chars "mkfs", .mkfs),
    (chars "install", .install), (chars "lsdisk", .lsdisk args), (chars "catdisk", .catdisk args),
    (chars "runelf", .runelf args)]

/-- The string that starts at an index of a line. -/
def Line.stringFrom (line : Line) (i : U32) : List U8 :=
  (line.chars i.toNat shellBufferSize.toNat).takeWhile fun c => c ≠ 0#8

/-- `interpret_command` up to the call that it makes, with the line after it. There is no call for
an empty line. -/
def interpretCommand (input : Line) : Option (Line × Option ShellCommand) :=
  (splitArgs input).bind fun r =>
    (readAt r.1 0#32).map fun c =>
      (r.1, if c = 0#8 then none
        else some (selectCommand (r.1.stringFrom 0#32) (r.2.map r.1.stringFrom)))

/-- The part of a text up to its first space. -/
def firstWord (text : List U8) : List U8 := text.takeWhile fun c => c ≠ 0x20#8

/-- The part of a text from the first character on that is no space, behind the first space. -/
def argumentOf (text : List U8) : List U8 :=
  (text.dropWhile fun c => c ≠ 0x20#8).dropWhile fun c => c = 0x20#8

/-- The call for a text. -/
def callOf (text : List U8) : Option ShellCommand :=
  if firstWord text = [] then none
  else some (selectCommand (firstWord text) (if argumentOf text = [] then none
    else some (argumentOf text)))

/-- The texts of a command with or without an argument: a word without spaces, then spaces, then the
argument from its first other character on. -/
inductive CommandText (word : List U8) : Option (List U8) → List U8 → Prop
  | bare (spaces : ℕ) : CommandText word none (word ++ List.replicate spaces 0x20#8)
  | withArgument (spaces : ℕ) {arg : List U8} (hne : arg ≠ []) (hhead : arg.head? ≠ some 0x20#8) :
      CommandText word (some arg) (word ++ List.replicate (spaces + 1) 0x20#8 ++ arg)

/-- The text makes `command_loop` call the interpreter for commands nested so deep. -/
inductive Nests : List U8 → ℕ → Prop
  | once (text : List U8) : Nests text 0
  | loop {text arg : List U8} {depth : ℕ} (h : callOf text = some (.loop (some arg)))
      (harg : Nests arg depth) : Nests text (depth + 1)

section

variable {line : Line} {n i p : U32} {turns depth : ℕ} {text word arg : List U8}
  {args : Option (List U8)} {call : ShellCommand}

/-- The characters of a part of a line. -/
theorem Line.mem_chars {c : U8} {k m : ℕ} :
    c ∈ line.chars k m ↔ ∃ j, k ≤ j ∧ j < m ∧ line (BitVec.ofNat 32 j) = c := by
  simp only [Line.chars, List.mem_map, List.mem_range']
  constructor
  · rintro ⟨j, ⟨d, hd, rfl⟩, hc⟩
    exact ⟨k + 1 * d, by omega, by omega, hc⟩
  · rintro ⟨j, hk, hm, hc⟩
    exact ⟨j, ⟨j - k, by omega, by omega⟩, hc⟩

/-- A part of a line in two parts. -/
theorem Line.chars_append (line : Line) {k m l : ℕ} (hkm : k ≤ m) (hml : m ≤ l) :
    line.chars k m ++ line.chars m l = line.chars k l := by
  unfold Line.chars
  rw [← List.map_append]
  have hjoin := @List.range'_append k (m - k) (l - m) 1
  rw [Nat.one_mul, Nat.add_sub_cancel' hkm, show m - k + (l - m) = l - k by omega] at hjoin
  rw [hjoin]

/-- The string at an index, up to a zero byte behind it. -/
theorem Line.stringFrom_eq (hi : i ≤ n) (hn : n < shellBufferSize) (hend : line n = 0#8)
    (hchars : ∀ j, i ≤ j → j < n → line j ≠ 0#8) :
    line.stringFrom i = line.chars i.toNat n.toNat := by
  have hsize : shellBufferSize = 128#32 := rfl
  have hzero : line (BitVec.ofNat 32 n.toNat) = 0#8 := by
    rw [BitVec.ofNat_toNat, BitVec.setWidth_eq]
    exact hend
  unfold Line.stringFrom
  rw [← line.chars_append (m := n.toNat) (by bv_omega) (by bv_omega),
    line.chars_cons (by bv_omega : n.toNat < shellBufferSize.toNat), hzero]
  rw [List.takeWhile_append_of_pos, List.takeWhile_cons_of_neg (by simp), List.append_nil]
  intro c hc
  obtain ⟨j, hij, hjn, rfl⟩ := Line.mem_chars.mp hc
  simpa using hchars (BitVec.ofNat 32 j) (by bv_omega) (by bv_omega)

/-- The first loop stops at a space or at the end of the string. -/
theorem skipWord_spec (turns : ℕ) (h : line.HasLength n) (hi : i ≤ n)
    (hturns : n.toNat < i.toNat + turns) :
    ∃ p, skipWord line turns i = some p ∧ i ≤ p ∧ p ≤ n ∧ (p = n ∨ line p = 0x20#8) ∧
      ∀ j, i ≤ j → j < p → line j ≠ 0x20#8 := by
  have hlt := h.lt
  have hsize : shellBufferSize = 128#32 := rfl
  induction turns generalizing i with
  | zero => exact absurd hturns (by bv_omega)
  | succ turns ih =>
    unfold skipWord
    rw [readAt_of_lt (by bv_omega), Option.bind_some]
    by_cases hend : i = n
    · subst hend
      rw [if_neg (fun hand => hand.1 h.ends)]
      exact ⟨i, rfl, BitVec.le_refl _, BitVec.le_refl _, .inl rfl,
        fun j hij hj => absurd hj (BitVec.not_lt.mpr hij)⟩
    by_cases hspace : line i = 0x20#8
    · rw [if_neg (fun hand => hand.2 hspace)]
      exact ⟨i, rfl, BitVec.le_refl _, hi, .inr hspace,
        fun j hij hj => absurd hj (BitVec.not_lt.mpr hij)⟩
    rw [if_pos ⟨h.ne_zero i (by bv_omega), hspace⟩]
    obtain ⟨p, hrun, hip, hpn, hstop, hword⟩ := @ih (i + 1#32) (by bv_omega) (by bv_omega)
    refine ⟨p, hrun, by bv_omega, hpn, hstop, fun j hij hj => ?_⟩
    by_cases hji : j = i
    · rwa [hji]
    · exact hword j (by bv_omega) hj

/-- The second loop stops behind the spaces, at the end of the string at the latest. -/
theorem skipSpaces_spec (turns : ℕ) (hlt : n < shellBufferSize) (hends : line n = 0#8)
    (hi : i ≤ n) (hturns : n.toNat < i.toNat + turns) :
    ∃ q, skipSpaces line turns i = some q ∧ i ≤ q ∧ q ≤ n ∧ line q ≠ 0x20#8 ∧
      ∀ j, i ≤ j → j < q → line j = 0x20#8 := by
  have hsize : shellBufferSize = 128#32 := rfl
  induction turns generalizing i with
  | zero => exact absurd hturns (by bv_omega)
  | succ turns ih =>
    unfold skipSpaces
    rw [readAt_of_lt (by bv_omega), Option.bind_some]
    by_cases hspace : line i = 0x20#8
    · have hne : i ≠ n := by
        rintro rfl
        rw [hends] at hspace
        exact absurd hspace (by decide)
      rw [if_pos hspace]
      obtain ⟨q, hrun, hiq, hqn, hstop, hspaces⟩ := @ih (i + 1#32) (by bv_omega) (by bv_omega)
      refine ⟨q, hrun, by bv_omega, hqn, hstop, fun j hij hj => ?_⟩
      by_cases hji : j = i
      · rwa [hji]
      · exact hspaces j (by bv_omega) hj
    · rw [if_neg hspace]
      exact ⟨i, rfl, BitVec.le_refl _, hi, hspace,
        fun j hij hj => absurd hj (BitVec.not_lt.mpr hij)⟩

/-- A text in front of a space, or at the end, is the first word. -/
theorem firstWord_append (rest : List U8) (hword : ∀ c ∈ word, c ≠ 0x20#8)
    (hrest : rest = [] ∨ rest.head? = some 0x20#8) :
    firstWord (word ++ rest) = word ∧
      argumentOf (word ++ rest) = rest.dropWhile fun c => c = 0x20#8 := by
  have hall : ∀ c ∈ word, decide (c ≠ 0x20#8) = true := fun c hc => by simpa using hword c hc
  unfold firstWord argumentOf
  rw [List.takeWhile_append_of_pos hall, List.dropWhile_append_of_pos hall]
  cases rest with
  | nil => simp
  | cons c rest =>
    obtain rfl : c = 0x20#8 := by simpa using hrest
    simp

/-- The test for an empty line sees whether the first word is empty. -/
theorem emptyTest_eq {α : Type} (line : Line) (f : List U8 → α) (hp : p < shellBufferSize)
    (hend : line p = 0#8) (hchars : ∀ j < p, line j ≠ 0#8) :
    (if line 0#32 = 0#8 then none else some (f (line.stringFrom 0#32))) =
      if line.chars 0 p.toNat = [] then none else some (f (line.chars 0 p.toNat)) := by
  have hsize : shellBufferSize = 128#32 := rfl
  have hle (j : U32) : 0#32 ≤ j := BitVec.le_def.mpr (Nat.zero_le _)
  have hstring : line.stringFrom 0#32 = line.chars 0 p.toNat :=
    Line.stringFrom_eq (hle p) hp hend fun j _ hj => hchars j hj
  have hempty : line.chars 0 p.toNat = [] ↔ p = 0#32 := by
    rw [← List.length_eq_zero_iff, Line.length_chars]
    bv_omega
  by_cases hzero : p = 0#32
  · rw [if_pos (hzero ▸ hend), if_pos (hempty.mpr hzero)]
  · rw [if_neg (hchars 0#32 (by bv_omega)), if_neg (fun h => hzero (hempty.mp h)), hstring]

/-- Parts of two lines are the same when the characters are. -/
theorem Line.chars_congr_range {line' : Line} {k m : ℕ}
    (h : ∀ j, k ≤ j → j < m → line' (BitVec.ofNat 32 j) = line (BitVec.ofNat 32 j)) :
    line'.chars k m = line.chars k m := by
  unfold Line.chars
  refine List.map_congr_left fun j hj => ?_
  rw [List.mem_range'] at hj
  obtain ⟨d, hd, rfl⟩ := hj
  exact h _ (by omega) (by omega)

/-- The calls in terms of the text: `interpret_command` stays inside the buffer, changes the line at
its first space only, and makes the call of the text. -/
theorem interpretCommand_spec (h : line.HasLength n) :
    ∃ line', interpretCommand line = some (line', callOf (line.chars 0 n.toNat)) ∧
      (line' = line ∨ ∃ p < n, line p = 0x20#8 ∧ (∀ j < p, line j ≠ 0x20#8) ∧
        line' = fun j => if j = p then 0#8 else line j) := by
  have hlt := h.lt
  have hsize : shellBufferSize = 128#32 := rfl
  have hle (j : U32) : 0#32 ≤ j := BitVec.le_def.mpr (Nat.zero_le _)
  have hzero : (0#32).toNat = 0 := rfl
  obtain ⟨p, hskip, -, hpn, hstop, hword⟩ := skipWord_spec (shellBufferSize.toNat + 1) h
    (hle n) (by bv_omega)
  have hwordChars : ∀ c ∈ line.chars 0 p.toNat, c ≠ 0x20#8 := by
    intro c hc
    obtain ⟨j, -, hj, rfl⟩ := Line.mem_chars.mp hc
    exact hword (BitVec.ofNat 32 j) (hle _) (by bv_omega)
  have hsplit : line.chars 0 n.toNat = line.chars 0 p.toNat ++ line.chars p.toNat n.toNat :=
    (line.chars_append (by bv_omega) (by bv_omega)).symm
  unfold interpretCommand splitArgs
  rw [hskip, Option.bind_some, readAt_of_lt (by bv_omega), Option.bind_some]
  by_cases hspace : line p = 0x20#8
  · have hne : p ≠ n := by
      rintro rfl
      rw [h.ends] at hspace
      exact absurd hspace (by decide)
    set line' : Line := fun j => if j = p then 0#8 else line j with hline'
    have hsame (j : U32) (hj : j ≠ p) : line' j = line j := if_neg hj
    have hends : line' n = 0#8 := (hsame n (Ne.symm hne)).trans h.ends
    obtain ⟨q, hspaces, hpq, hqn, hstop', hall⟩ := skipSpaces_spec (i := p + 1#32)
      (shellBufferSize.toNat + 1) hlt hends (by bv_omega) (by bv_omega)
    refine ⟨line', ?_, .inr ⟨p, by bv_omega, hspace, fun j hj => hword j (hle j) hj, rfl⟩⟩
    -- What stands behind the first space.
    have hrest : line.chars p.toNat n.toNat =
        line.chars p.toNat q.toNat ++ line.chars q.toNat n.toNat :=
      (line.chars_append (by bv_omega) (by bv_omega)).symm
    have hspacesChars : ∀ c ∈ line.chars p.toNat q.toNat, decide (c = 0x20#8) = true := by
      intro c hc
      obtain ⟨j, hpj, hj, rfl⟩ := Line.mem_chars.mp hc
      rw [decide_eq_true_iff]
      by_cases hjp : BitVec.ofNat 32 j = p
      · rw [hjp, hspace]
      · rw [← hsame _ hjp]
        exact hall (BitVec.ofNat 32 j) (by bv_omega) (by bv_omega)
    have hargument : (line.chars p.toNat n.toNat).dropWhile (fun c => c = 0x20#8) =
        line.chars q.toNat n.toNat := by
      rw [hrest, List.dropWhile_append_of_pos hspacesChars]
      by_cases hqend : q = n
      · rw [hqend, Line.chars_self, List.dropWhile_nil]
      · have hcons := line.chars_cons (show q.toNat < n.toNat by bv_omega)
        rw [BitVec.ofNat_toNat, BitVec.setWidth_eq] at hcons
        rw [hcons, List.dropWhile_cons_of_neg]
        rw [← hsame q (by bv_omega)]
        simpa using hstop'
    have hhead : (line.chars p.toNat n.toNat).head? = some 0x20#8 := by
      rw [line.chars_cons (by bv_omega), BitVec.ofNat_toNat, BitVec.setWidth_eq, hspace]
      rfl
    obtain ⟨hfirst, harg⟩ := firstWord_append _ hwordChars (.inr hhead)
    rw [← hsplit] at hfirst harg
    rw [hargument] at harg
    have hprefixChars : line'.chars 0 p.toNat = line.chars 0 p.toNat :=
      Line.chars_congr_range fun j _ hj => hsame _ (by bv_omega)
    have hargChars : line'.stringFrom q = line.chars q.toNat n.toNat := by
      rw [Line.stringFrom_eq hqn hlt hends fun j hqj hj => ?_]
      · exact Line.chars_congr_range fun j hqj hj => hsame _ (by bv_omega)
      · rw [hsame j (by bv_omega)]
        exact h.ne_zero j hj
    have hargEmpty : line.chars q.toNat n.toNat = [] ↔ line' q = 0#8 := by
      rw [← List.length_eq_zero_iff, Line.length_chars]
      constructor
      · intro hlen
        obtain rfl : q = n := by bv_omega
        exact hends
      · intro hq
        have hqend : ¬ q < n := fun hlt' => by
          rw [hsame q (by bv_omega)] at hq
          exact h.ne_zero q hlt' hq
        bv_omega
    rw [if_neg (not_not_intro hspace), writeAt_of_lt (by bv_omega), Option.bind_some, ← hline',
      hspaces, Option.bind_some, readAt_of_lt (by bv_omega), Option.map_some, Option.bind_some,
      readAt_of_lt (by decide), Option.map_some]
    have hcall := emptyTest_eq (p := p) line'
      (fun word => selectCommand word
        ((if line' q = 0#8 then none else some q).map line'.stringFrom))
      (by bv_omega) (if_pos rfl) fun j hj => by
        rw [hsame j (by bv_omega)]
        exact h.ne_zero j (by bv_omega)
    rw [hcall, hprefixChars]
    unfold callOf
    rw [hfirst, harg]
    by_cases hq : line' q = 0#8
    · rw [if_pos hq, if_pos (hargEmpty.mpr hq), Option.map_none]
    · rw [if_neg hq, if_neg (fun he => hq (hargEmpty.mp he)), Option.map_some, hargChars]
  · -- The word reaches to the end of the line.
    obtain rfl : p = n := hstop.resolve_right hspace
    obtain ⟨hfirst, harg⟩ := firstWord_append [] hwordChars (.inl rfl)
    rw [List.append_nil] at hfirst harg
    refine ⟨line, ?_, .inl rfl⟩
    rw [if_pos hspace, Option.bind_some, readAt_of_lt (by decide), Option.map_some]
    have hcall :=
      emptyTest_eq line (fun word => selectCommand word (Option.map line.stringFrom none))
      hlt h.ends h.ne_zero
    rw [hcall]
    unfold callOf
    rw [hfirst, harg, List.dropWhile_nil, if_pos rfl, Option.map_none]

/-- A text without a call is empty or starts with a space. -/
theorem firstWord_eq_nil : firstWord text = [] ↔ text = [] ∨ text.head? = some 0x20#8 := by
  cases text with
  | nil => simp [firstWord]
  | cons c text => by_cases hc : c = 0x20#8 <;> simp [firstWord, hc]

/-- Each text with a first word is a command text. -/
theorem commandText_self (text : List U8) :
    CommandText (firstWord text) (if argumentOf text = [] then none else some (argumentOf text))
      text := by
  set rest := text.dropWhile fun c => c ≠ 0x20#8 with hrest
  have htext : firstWord text ++ rest = text := List.takeWhile_append_dropWhile
  have hspaces : rest.takeWhile (fun c => c = 0x20#8) =
      List.replicate (rest.takeWhile fun c => c = 0x20#8).length 0x20#8 := by
    rw [List.eq_replicate_iff]
    exact ⟨rfl, fun c hc => by simpa using List.mem_takeWhile_imp hc⟩
  have hsplit : rest.takeWhile (fun c => c = 0x20#8) ++ argumentOf text = rest :=
    List.takeWhile_append_dropWhile
  split_ifs with hempty
  · have hbare : text = firstWord text ++
        List.replicate (rest.takeWhile fun c => c = 0x20#8).length 0x20#8 := by
      rw [hempty, List.append_nil] at hsplit
      rw [← hspaces, hsplit, htext]
    have h : CommandText (firstWord text) none _ :=
      .bare (rest.takeWhile fun c => c = 0x20#8).length
    rwa [← hbare] at h
  · have hhead : (argumentOf text).head? ≠ some 0x20#8 := by
      have hstop := List.head?_dropWhile_not (fun c : U8 => decide (c = 0x20#8)) rest
      intro h
      unfold argumentOf at h
      rw [← hrest] at h
      rw [h] at hstop
      simp at hstop
    -- The rest starts with the space at which the word ended.
    have hpos : 0 < (rest.takeWhile fun c => c = 0x20#8).length := by
      have hstop := List.head?_dropWhile_not (fun c : U8 => decide (c ≠ 0x20#8)) text
      rw [← hrest] at hstop
      cases hcase : rest with
      | nil =>
        rw [hcase] at hsplit
        exact absurd (List.append_eq_nil_iff.mp hsplit).2 hempty
      | cons c cs =>
        rw [hcase] at hstop
        have hc : c = 0x20#8 := by simpa using hstop
        simp [hc]
    obtain ⟨spaces, hcount⟩ := Nat.exists_eq_add_of_lt hpos
    rw [Nat.zero_add] at hcount
    have h : CommandText (firstWord text) _ _ := .withArgument spaces hempty hhead
    rw [← hcount, ← hspaces, List.append_assoc, hsplit, htext] at h
    exact h

/-- A command text has its word and its argument. -/
theorem CommandText.callOf_eq (h : CommandText word args text) (hne : word ≠ [])
    (hword : 0x20#8 ∉ word) : callOf text = some (selectCommand word args) := by
  have hchars : ∀ c ∈ word, c ≠ 0x20#8 := fun c hc he => hword (he ▸ hc)
  cases h with
  | bare spaces =>
    have hrest : List.replicate spaces 0x20#8 = [] ∨
        (List.replicate spaces 0x20#8).head? = some 0x20#8 := by
      cases spaces with
      | zero => exact .inl rfl
      | succ spaces => exact .inr rfl
    obtain ⟨hfirst, harg⟩ := firstWord_append _ hchars hrest
    have hnone : (List.replicate spaces 0x20#8).dropWhile (fun c => c = 0x20#8) = [] := by
      rw [List.dropWhile_eq_nil_iff]
      exact fun c hc => by simpa using List.eq_of_mem_replicate hc
    unfold callOf
    rw [hfirst, harg, hnone, if_neg hne, if_pos rfl]
  | @withArgument spaces arg harg hhead =>
    obtain ⟨hfirst, hargs⟩ := firstWord_append
      (List.replicate (spaces + 1) 0x20#8 ++ arg) hchars (.inr rfl)
    have hspaces : ∀ c ∈ List.replicate (spaces + 1) 0x20#8, decide (c = 0x20#8) = true :=
      fun c hc => by simpa using List.eq_of_mem_replicate hc
    have hkept : arg.dropWhile (fun c => c = 0x20#8) = arg := by
      cases arg with
      | nil => rfl
      | cons c cs => exact List.dropWhile_cons_of_neg (by simpa using hhead)
    rw [List.dropWhile_append_of_pos hspaces, hkept] at hargs
    unfold callOf
    rw [List.append_assoc, hfirst, hargs, if_neg hne, if_neg harg]

/-- What a line runs. For every string in the line buffer: `interpret_command` stays inside the
buffer; it makes no call exactly for the empty line and for a line that starts with a space; and it
makes a call exactly when the line is a word followed by spaces, or by spaces and an argument, for
which the call is the selected one. -/
theorem interpretCommand_iff (h : line.HasLength n) :
    ((∃ line', interpretCommand line = some (line', none)) ↔
        n = 0#32 ∨ line 0#32 = 0x20#8) ∧
      ∀ call, (∃ line', interpretCommand line = some (line', some call)) ↔
        ∃ word args, word ≠ [] ∧ 0x20#8 ∉ word ∧ CommandText word args (line.chars 0 n.toNat) ∧
          call = selectCommand word args := by
  obtain ⟨line', hrun, -⟩ := interpretCommand_spec h
  have hcall (r : Option ShellCommand) :
      (∃ line', interpretCommand line = some (line', r)) ↔ callOf (line.chars 0 n.toNat) = r := by
    constructor
    · rintro ⟨line'', hrun'⟩
      exact (Prod.mk.inj (Option.some.inj (hrun.symm.trans hrun'))).2
    · rintro rfl
      exact ⟨line', hrun⟩
  refine ⟨(hcall none).trans ?_, fun call => (hcall (some call)).trans ?_⟩
  · have hnone : callOf (line.chars 0 n.toNat) = none ↔ firstWord (line.chars 0 n.toNat) = [] := by
      unfold callOf
      split_ifs with hempty
      · simp [hempty]
      · simp [hempty]
    have hzero : line.chars 0 n.toNat = [] ↔ n = 0#32 := by
      rw [← List.length_eq_zero_iff, Line.length_chars]
      bv_omega
    rw [hnone, firstWord_eq_nil, hzero]
    by_cases hn : n = 0#32
    · simp [hn]
    · have hcons := line.chars_cons (show 0 < n.toNat by bv_omega)
      rw [hcons]
      simp [hn]
  · constructor
    · intro hsome
      have hne : firstWord (line.chars 0 n.toNat) ≠ [] := by
        intro hempty
        unfold callOf at hsome
        rw [if_pos hempty] at hsome
        cases hsome
      have hword : 0x20#8 ∉ firstWord (line.chars 0 n.toNat) := by
        intro hmem
        simpa using List.mem_takeWhile_imp hmem
      have htext := commandText_self (line.chars 0 n.toNat)
      refine ⟨_, _, hne, hword, htext, ?_⟩
      exact Option.some.inj (hsome.symm.trans (htext.callOf_eq hne hword))
    · rintro ⟨word, args, hne, hword, htext, rfl⟩
      exact htext.callOf_eq hne hword

/-- A search in a table that begins with a name looks at this name first. -/
theorem getD_lookup_cons (name : List U8) (call other : ShellCommand)
    (table : List (List U8 × ShellCommand)) :
    (((name, call) :: table).lookup word).getD other =
      if word = name then call else (table.lookup word).getD other := by
  rw [List.lookup_cons]
  by_cases hname : word = name
  · simp [hname]
  · have hne : (word == name) = false := by simpa using hname
    rw [hne, if_neg hname]

/-- The comparisons are a search in the table of names. -/
theorem selectCommand_eq (word : List U8) (args : Option (List U8)) :
    selectCommand word args = ((commandTable args).lookup word).getD (.unknown word) := by
  simp only [selectCommand, commandTable, strcmp_eq_zero, getD_lookup_cons, List.lookup_nil,
    Option.getD_none]

/-- The first word selects the command that stands with it in the table, and the message about an
unknown command when it does not stand there. -/
theorem selectCommand_iff : selectCommand word args = call ↔
    (word, call) ∈ commandTable args ∨
      word ∉ (commandTable args).map Prod.fst ∧ call = .unknown word := by
  have hnodup : ((commandTable args).map Prod.fst).Nodup :=
    (by decide : ((commandTable none).map Prod.fst).Nodup)
  rw [selectCommand_eq]
  cases hlookup : (commandTable args).lookup word with
  | none =>
    have hnone : word ∉ (commandTable args).map Prod.fst := by
      intro hmem
      obtain ⟨⟨name, c⟩, hc, rfl⟩ := List.mem_map.mp hmem
      simpa using List.lookup_eq_none_iff.mp hlookup _ hc
    rw [Option.getD_none, and_iff_right hnone, eq_comm]
    exact ⟨.inr, fun h => h.resolve_left fun hmem => hnone (List.mem_map_of_mem hmem)⟩
  | some c =>
    obtain ⟨front, behind, htable, -⟩ := List.lookup_eq_some_iff.mp hlookup
    have hmem : (word, c) ∈ commandTable args := htable ▸ List.mem_append_right _ (.head _)
    rw [Option.getD_some]
    constructor
    · rintro rfl
      exact .inl hmem
    · rintro (hcall | ⟨hnone, -⟩)
      · exact congrArg Prod.snd (List.inj_on_of_nodup_map hnodup hmem hcall rfl)
      · exact absurd (List.mem_map_of_mem hmem) hnone

/-- Only the word "loop" selects `command_loop`. -/
theorem selectCommand_loop (h : selectCommand word args = .loop (some arg)) :
    word = chars "loop" ∧ args = some arg := by
  obtain hmem | ⟨-, hunknown⟩ := selectCommand_iff.mp h
  · simpa [commandTable, eq_comm] using hmem
  · cases hunknown

/-- Each level of `loop` takes five characters of the text. -/
theorem Nests.length_le (h : Nests text depth) : 5 * depth ≤ text.length := by
  induction h with
  | once text => omega
  | @loop text arg depth h _ ih =>
    have htext := commandText_self text
    unfold callOf at h
    split_ifs at h with hfirst hempty
    · obtain ⟨-, hargs⟩ := selectCommand_loop (Option.some.inj h)
      cases hargs
    · obtain ⟨hword, hargs⟩ := selectCommand_loop (Option.some.inj h)
      rw [if_neg hempty, hargs, hword] at htext
      have hfour : (chars "loop").length = 4 := by decide
      generalize hs : some arg = a at htext
      cases htext with
      | bare => cases hs
      | @withArgument spaces arg' =>
        obtain rfl := Option.some.inj hs
        rw [List.length_append, List.length_append, List.length_replicate, hfour]
        omega

/-- A line of the shell nests at most 25 calls of `command_loop`. -/
theorem Nests.le_of_hasLength (h : line.HasLength n) (hnests : Nests (line.chars 0 n.toNat) depth) :
    depth ≤ 25 := by
  have hlt := h.lt
  have hsize : shellBufferSize = 128#32 := rfl
  have hlength := hnests.length_le
  rw [Line.length_chars] at hlength
  bv_omega

end

/-- The line with a text, and zeros behind it. -/
def Line.ofText (text : List U8) : Line := fun j => text.getD j.toNat 0#8

/-- A short text without a zero byte is the string of its line. -/
theorem Line.ofText_spec (text : List U8) (hlen : text.length < 128) (htext : 0#8 ∉ text) :
    (Line.ofText text).HasLength (BitVec.ofNat 32 text.length) ∧
      (Line.ofText text).chars 0 (BitVec.ofNat 32 text.length).toNat = text := by
  have hsize : shellBufferSize = 128#32 := rfl
  have hnat : (BitVec.ofNat 32 text.length).toNat = text.length := by
    rw [BitVec.toNat_ofNat, Nat.mod_eq_of_lt (by omega)]
  refine ⟨⟨by bv_omega, ?_, fun j hj => ?_⟩, ?_⟩
  · unfold Line.ofText
    rw [hnat, List.getD_eq_default _ _ le_rfl]
  · have hj' : j.toNat < text.length := by bv_omega
    unfold Line.ofText
    rw [List.getD_eq_getElem _ _ hj']
    exact fun hzero => htext (hzero ▸ List.getElem_mem hj')
  · rw [hnat]
    refine List.ext_getElem (by simp) fun k hk hk' => ?_
    have hkn : (BitVec.ofNat 32 k).toNat = k := by
      rw [BitVec.toNat_ofNat, Nat.mod_eq_of_lt (by omega)]
    simp only [Line.chars, List.getElem_map, List.getElem_range', Line.ofText, Nat.one_mul,
      Nat.zero_add, hkn]
    exact List.getD_eq_getElem _ _ hk'

/-- Spaces between the command and its argument are skipped. -/
theorem interpretCommand_cat : ∃ line',
    interpretCommand (.ofText (chars "cat  f ")) =
    some (line', some (.cat (some (chars "f ")))) := by
  obtain ⟨hlength, htext⟩ := Line.ofText_spec (chars "cat  f ") (by decide) (by decide)
  refine ((interpretCommand_iff hlength).2 _).mpr
    ⟨chars "cat", some (chars "f "), by decide, by decide, ?_, by decide⟩
  rw [htext]
  exact .withArgument 1 (by decide) (by decide)

/-- Two levels in one line. -/
theorem nests_two : Nests (chars "loop loop ls") 2 ∧ 2 ≤ 25 := by
  obtain ⟨hlength, htext⟩ := Line.ofText_spec (chars "loop loop ls") (by decide) (by decide)
  have hnests : Nests (chars "loop loop ls") 2 :=
    .loop (by decide : callOf (chars "loop loop ls") = some (.loop (some (chars "loop ls"))))
      (.loop (by decide : callOf (chars "loop ls") = some (.loop (some (chars "ls")))) (.once _))
  exact ⟨hnests, Nests.le_of_hasLength hlength (htext.symm ▸ hnests)⟩

end AlderKernel.Shell
