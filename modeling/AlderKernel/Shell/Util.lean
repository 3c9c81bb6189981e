import AlderKernel.Machine.Memory

/-!
# Lines of the shell

The buffers of 128 bytes in which the shell keeps lines, and `str_copy` of
`kernel/shell/util.c` between two of them. A read or a write behind the end of a buffer has no
result.
-/

namespace AlderKernel.Shell

open Machine

/-- `SHELL_BUFFER_SIZE`. -/
def shellBufferSize : U32 := 128#32

/-- A buffer of `SHELL_BUFFER_SIZE` bytes, by index. -/
abbrev Line := U32 → U8

/-- A buffer of zeros. -/
def Line.zero : Line := fun _ => 0#8

/-- `line[i]`. -/
def readAt (line : Line) (i : U32) : Option U8 :=
  if i < shellBufferSize then some (line i) else none

/-- `line[i] = c`. -/
def writeAt (line : Line) (i : U32) (c : U8) : Option Line :=
  if i < shellBufferSize then some (fun j => if j = i then c else line j) else none

/-- The loop of `str_copy` from index `i` on. -/
def strCopyFrom (src : Line) : ℕ → U32 → Line → Option Line
  | 0, _, _ => none
  | turns + 1, i, dst =>
    (readAt src i).bind fun c =>
      if c ≠ 0#8 then (writeAt dst i c).bind fun dst => strCopyFrom src turns (i + 1#32) dst
      else writeAt dst i 0#8

/-- `str_copy` between two lines. -/
def strCopy (dst src : Line) : Option Line := strCopyFrom src (shellBufferSize.toNat + 1) 0#32 dst

/-- The line is a string of `n` characters, with its end inside the buffer. -/
structure Line.HasLength (line : Line) (n : U32) : Prop where
  lt : n < shellBufferSize
  ends : line n = 0#8
  ne_zero : ∀ i < n, line i ≠ 0#8

/-- The characters of a line from one index up to another. -/
def Line.chars (line : Line) (i n : ℕ) : List U8 :=
  (List.range' i (n - i)).map fun j => line (BitVec.ofNat 32 j)

/-- The line ends inside the buffer. -/
def Line.Terminated (line : Line) : Prop := ∃ n, line.HasLength n

/-- A string with the first `n` characters of a line. -/
def Line.Copies (copy line : Line) (n : U32) : Prop := copy.HasLength n ∧ ∀ j < n, copy j = line j

section

variable {line src dst : Line} {i n : U32} {c : U8} {turns : ℕ}

/-- Inside the buffer a character is read. -/
theorem readAt_of_lt (h : i < shellBufferSize) : readAt line i = some (line i) := if_pos h

/-- Inside the buffer a character is written. -/
theorem writeAt_of_lt (h : i < shellBufferSize) :
    writeAt line i c = some fun j => if j = i then c else line j := if_pos h

/-- An empty part of a line has no characters. -/
theorem Line.chars_self (line : Line) (n : ℕ) : line.chars n n = [] := by simp [Line.chars]

/-- A part of a line, by its first character. -/
theorem Line.chars_cons (line : Line) {k m : ℕ} (h : k < m) :
    line.chars k m = line (BitVec.ofNat 32 k) :: line.chars (k + 1) m := by
  unfold Line.chars
  rw [show m - k = m - (k + 1) + 1 by omega, List.range'_succ, List.map_cons]

/-- A part of a line has as many characters as its bounds say. -/
@[simp] theorem Line.length_chars (line : Line) (k m : ℕ) : (line.chars k m).length = m - k := by
  simp [Line.chars]

/-- A zero byte ends a line. -/
theorem Line.terminated_of_zero (h : i < shellBufferSize) (hzero : line i = 0#8) :
    line.Terminated := by
  have hex : ∃ k : ℕ, line (BitVec.ofNat 32 k) = 0#8 :=
    ⟨i.toNat, by rwa [BitVec.ofNat_toNat, BitVec.setWidth_eq]⟩
  have hle : Nat.find hex ≤ i.toNat :=
    Nat.find_min' hex (by rwa [BitVec.ofNat_toNat, BitVec.setWidth_eq])
  have hsize : shellBufferSize.toNat = 128 := rfl
  refine ⟨BitVec.ofNat 32 (Nat.find hex), by bv_omega, Nat.find_spec hex, fun j hj hz => ?_⟩
  refine Nat.find_min hex (m := j.toNat) (by bv_omega) ?_
  rwa [BitVec.ofNat_toNat, BitVec.setWidth_eq]

/-- The line of zeros is the empty string. -/
theorem Line.zero_terminated : Line.zero.Terminated :=
  terminated_of_zero (i := 0#32) (by decide) rfl

/-- The loop of `str_copy`: characters up to the end of the source are copied, the others stay. -/
theorem strCopyFrom_spec (h : src.HasLength n) (hi : i ≤ n) (hturns : n.toNat < i.toNat + turns) :
    ∃ dst', strCopyFrom src turns i dst = some dst' ∧
      (∀ j, i ≤ j → j ≤ n → dst' j = src j) ∧ ∀ j, j < i ∨ n < j → dst' j = dst j := by
  have hlt := h.lt
  have hsize : shellBufferSize.toNat = 128 := rfl
  induction turns generalizing i dst with
  | zero => exact absurd hturns (by bv_omega)
  | succ turns ih =>
    have hilt : i < shellBufferSize := by bv_omega
    unfold strCopyFrom
    rw [readAt_of_lt hilt, Option.bind_some, writeAt_of_lt hilt, writeAt_of_lt hilt]
    by_cases hend : i = n
    · subst hend
      rw [if_neg (not_not_intro h.ends)]
      refine ⟨_, rfl, fun j hij hjn => ?_, fun j hj => ?_⟩
      · obtain rfl : j = i := BitVec.le_antisymm hjn hij
        rw [if_pos rfl, h.ends]
      · exact if_neg (by bv_omega)
    · rw [if_pos (h.ne_zero i (by bv_omega)), Option.bind_some]
      have hstep : i + 1#32 ≤ n := by bv_omega
      obtain ⟨dst', hrun, hcopied, hrest⟩ :=
        @ih (fun j => if j = i then src i else dst j) (i + 1#32)
        hstep (by bv_omega)
      refine ⟨dst', hrun, fun j hij hjn => ?_, fun j hj => ?_⟩
      · by_cases hji : j = i
        · rw [hrest j (.inl (by bv_omega)), if_pos hji, hji]
        · exact hcopied j (by bv_omega) hjn
      · rw [hrest j (by bv_omega), if_neg (by bv_omega)]

/-- `str_copy` of a string that ends inside its buffer stays inside the buffers and makes a copy. -/
theorem strCopy_spec (dst : Line) (h : src.HasLength n) :
    ∃ dst', strCopy dst src = some dst' ∧ dst'.HasLength n ∧ ∀ j ≤ n, dst' j = src j := by
  have hlt := h.lt
  have hsize : shellBufferSize.toNat = 128 := rfl
  have hzero : (0#32).toNat = 0 := rfl
  obtain ⟨dst', hrun, hcopied, -⟩ : ∃ dst', strCopy dst src = some dst' ∧
      (∀ j, 0#32 ≤ j → j ≤ n → dst' j = src j) ∧ ∀ j, j < 0#32 ∨ n < j → dst' j = dst j :=
    strCopyFrom_spec h (BitVec.le_def.mpr (Nat.zero_le _)) (by bv_omega)
  have hsame (j : U32) (hj : j ≤ n) : dst' j = src j :=
    hcopied j (BitVec.le_def.mpr (Nat.zero_le _)) hj
  refine ⟨dst', hrun, ⟨hlt, ?_, fun j hj => ?_⟩, hsame⟩
  · rw [hsame n (BitVec.le_refl _)]
    exact h.ends
  · rw [hsame j (BitVec.le_of_lt hj)]
    exact h.ne_zero j hj

end

end AlderKernel.Shell
