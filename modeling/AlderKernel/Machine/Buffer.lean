import AlderKernel.Machine.Memory

/-!
# Byte buffers of fixed size

An array `unsigned char buf[n]`. Reading past the end gives 0 here, and writing past it is
lost; code that could do so has to be shown not to. A part of a buffer can be taken out and
put back, and two buffers are the same when their bytes are.
-/

namespace Machine

/-- The contents of an array of `n` bytes. -/
def Buffer (n : ℕ) := Fin n → U8

namespace Buffer

variable {n m : ℕ}

/-- The byte at an index. -/
def byte (b : Buffer n) (i : ℕ) : U8 := if h : i < n then b ⟨i, h⟩ else 0#8

/-- The buffer with the given bytes. -/
def ofFn (f : ℕ → U8) : Buffer n := fun i => f i.val

/-- The buffer that starts with the given bytes, and has zeros behind them. -/
def ofList (l : List U8) : Buffer n := ofFn fun i => l.getD i 0#8

/-- All bytes are zero. -/
def zero : Buffer n := ofFn fun _ => 0#8

/-- Replace the byte at an index. -/
def set (b : Buffer n) (i : ℕ) (v : U8) : Buffer n := ofFn fun j => if j = i then v else b.byte j

/-- The `m` bytes from `off` on. -/
def slice (b : Buffer n) (off m : ℕ) : Buffer m := ofFn fun i => b.byte (off + i)

/-- The buffer with the bytes of `src` copied to it from `off` on. -/
def paste (b : Buffer n) (off : ℕ) (src : Buffer m) : Buffer n :=
  ofFn fun i => if off ≤ i ∧ i < off + m then src.byte (i - off) else b.byte i

/-- Buffers with the same bytes are the same. -/
theorem ext {b c : Buffer n} (h : ∀ i < n, b.byte i = c.byte i) : b = c := by
  funext i
  have hi := h i.val i.isLt
  simpa only [byte, i.isLt, dif_pos] using hi

/-- The bytes of a buffer are those it was made of. -/
theorem byte_ofFn {f : ℕ → U8} {i : ℕ} (hi : i < n) : (ofFn f : Buffer n).byte i = f i := dif_pos hi

/-- The zero buffer has zero bytes. -/
@[simp] theorem byte_zero {i : ℕ} : (zero : Buffer n).byte i = 0#8 := by
  unfold byte
  split_ifs
  · rfl
  · rfl

/-- The bytes of a buffer that was made of a list are those of the list. -/
theorem byte_ofList {l : List U8} {i : ℕ} (hi : i < n) :
    (ofList l : Buffer n).byte i = l.getD i 0#8 := byte_ofFn hi

/-- Setting a byte sets this one and no other. -/
theorem byte_set {b : Buffer n} {i j : ℕ} {v : U8} (hj : j < n) :
    (b.set i v).byte j = if j = i then v else b.byte j := byte_ofFn hj

/-- Setting a byte keeps the others. -/
theorem byte_set_of_ne {b : Buffer n} {i j : ℕ} {v : U8} (h : j ≠ i) :
    (b.set i v).byte j = b.byte j := by
  by_cases hj : j < n
  · rw [byte_set hj, if_neg h]
  · unfold byte
    rw [dif_neg hj, dif_neg hj]

/-- The bytes of a slice are those of the buffer from its start on. -/
theorem byte_slice {b : Buffer n} {off i : ℕ} (hi : i < m) :
    (b.slice off m).byte i = b.byte (off + i) := byte_ofFn hi

/-- Pasting a buffer replaces the bytes of its range and no others. -/
theorem byte_paste {src : Buffer m} {b : Buffer n} {off i : ℕ} (hi : i < n) :
    (b.paste off src).byte i = if off ≤ i ∧ i < off + m then src.byte (i - off) else b.byte i :=
  byte_ofFn hi

/-- What was put in is taken out again. -/
theorem slice_paste_self {src : Buffer m} {b : Buffer n} {off : ℕ} (h : off + m ≤ n) :
    (b.paste off src).slice off m = src := by
  refine ext fun i hi => ?_
  rw [byte_slice hi, byte_paste (by omega), if_pos (by omega), Nat.add_sub_cancel_left]

/-- Putting a part in leaves a part apart from it alone. -/
theorem slice_paste_of_apart {k : ℕ} {src : Buffer m} {b : Buffer n} {off off' : ℕ}
    (h : off' + k ≤ n) (hapart : off + m ≤ off' ∨ off' + k ≤ off) :
    (b.paste off src).slice off' k = b.slice off' k := by
  refine ext fun i hi => ?_
  rw [byte_slice hi, byte_slice hi, byte_paste (by omega), if_neg (by omega)]

end Buffer

end Machine
