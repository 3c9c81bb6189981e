import AlderKernel.Fs.EntryFields
import AlderKernel.Shell.Numbers
import AlderKernel.Shell.ScreenPage

/-!
# Numbers that are printed and typed

`print_uint` fills a buffer of 11 bytes from its end. What it prints are the decimal digits of the
number, and `str_to_uint` reads the number back from them.
-/

namespace AlderKernel.Shell

open Machine Fs

/-- The variables of `print_uint`. -/
structure UintLocals where
  /-- `buf`. -/
  buf : Buffer 11
  /-- `i`. -/
  i : ℕ
  /-- `n`. -/
  n : U32

/-- The loop of `print_uint` from index `i` on. -/
def uintLoop : ℕ → U32 → Buffer 11 → UintLocals
  | 0, n, buf => ⟨buf, 0, n⟩
  | i + 1, n, buf =>
    if 0#32 < n then uintLoop i (n / 10#32) (buf.set i ((0x30#32 + n % 10#32).setWidth 8))
    else ⟨buf, i + 1, n⟩

/-- The indices of `buf` that the loop writes. -/
def uintLoopWrites : ℕ → U32 → List ℕ
  | 0, _ => []
  | i + 1, n => if 0#32 < n then i :: uintLoopWrites i (n / 10#32) else []

/-- The indices of `buf` that `print_uint` writes. -/
def printUintStores (n : U32) : List ℕ := 10 :: if n = 0#32 then [] else uintLoopWrites 10 n

/-- The variables behind the loop. Before it, `buf` may hold anything. -/
def uintLocals (n : U32) (buf : Buffer 11) : UintLocals := uintLoop 10 n (buf.set 10 0#8)

/-- `&buf[i]`, up to the end of `buf`. -/
def UintLocals.rest (l : UintLocals) : Buffer (11 - l.i) := l.buf.slice l.i (11 - l.i)

/-- The characters that `print_uint` prints. -/
def uintChars (n : U32) (buf : Buffer 11) : List U8 :=
  if n = 0#32 then [0x30#8] else cString (arrayBytes (uintLocals n buf).rest)

section

variable {n : U32} {i : ℕ}

/-! ### The buffer -/

/-- A byte in front of the rest of an array. -/
theorem arrayBytes_slice_set {k : ℕ} {b : Buffer k} (hi : i < k) (v : U8) :
    arrayBytes ((b.set i v).slice i (k - i)) = v :: arrayBytes (b.slice (i + 1) (k - (i + 1))) := by
  have hlen : k - i = k - (i + 1) + 1 := by omega
  rw [arrayBytes_slice, arrayBytes_slice, hlen, List.range_succ_eq_map, List.map_cons, Nat.add_zero,
    Buffer.byte_set hi, if_pos rfl, List.map_map]
  congr 1
  apply List.map_congr_left
  intro j _
  change (b.set i v).byte (i + (j + 1)) = b.byte (i + 1 + j)
  rw [Buffer.byte_set_of_ne (by omega), Nat.add_assoc, Nat.add_comm 1]

/-- The loop puts the digits in front of what is in the buffer from its index on. -/
theorem uintLoop_rest (hi : i ≤ 10) (n : U32) (buf : Buffer 11) :
    arrayBytes (uintLoop i n buf).rest =
      uintDigits i n (arrayBytes (buf.slice i (11 - i))) := by
  induction i generalizing n buf with
  | zero => rfl
  | succ i ih =>
    by_cases hn : n = 0#32
    · have hstop : uintLoop (i + 1) n buf = ⟨buf, i + 1, n⟩ := if_neg (by bv_omega)
      rw [hstop, uintDigits, if_pos hn]
      rfl
    · have hmore : uintLoop (i + 1) n buf =
          uintLoop i (n / 10#32) (buf.set i ((0x30#32 + n % 10#32).setWidth 8)) :=
        if_pos (by bv_omega)
      rw [hmore, ih (by omega), arrayBytes_slice_set (by omega), uintDigits, if_neg hn]

/-- The loop over the digits writes in front of its index. -/
theorem uintLoopWrites_lt : ∀ j ∈ uintLoopWrites i n, j < i := by
  induction i generalizing n with
  | zero => exact List.forall_mem_nil _
  | succ i ih =>
    unfold uintLoopWrites
    split_ifs
    · rw [List.forall_mem_cons]
      refine ⟨by omega, fun j hj => ?_⟩
      have hlt := ih j hj
      omega
    · exact List.forall_mem_nil _

/-! ### The digits -/

/-- The decimal text of a number other than 0 is its digits. -/
theorem decimalText_of_ne {m : ℕ} (hm : m ≠ 0) :
    decimalText m = ((Nat.digits 10 m).map fun d => BitVec.ofNat 8 (0x30 + d)).reverse := if_neg hm

/-- The decimal text has digits only. -/
theorem decimalText_isDigit {m : ℕ} : ∀ c ∈ decimalText m, IsDigit c := by
  by_cases hm : m = 0
  · rw [hm]
    decide
  · rw [decimalText_of_ne hm]
    intro c hc
    obtain ⟨d, hd, rfl⟩ := List.mem_map.mp (List.mem_reverse.mp hc)
    have hlt : d < 10 := Nat.digits_lt_base (by decide) hd
    constructor <;> bv_omega

/-- The digits denote the number. -/
theorem valueOf_decimalText (m : ℕ) : valueOf (decimalText m) = m := by
  by_cases hm : m = 0
  · rw [hm]
    decide
  · have hdigits : (Nat.digits 10 m).map ((fun c : U8 => c.toNat - 48) ∘
        fun d => BitVec.ofNat 8 (0x30 + d)) = (Nat.digits 10 m).map id := by
      apply List.map_congr_left
      intro d hd
      have hlt : d < 10 := Nat.digits_lt_base (by decide) hd
      change (BitVec.ofNat 8 (0x30 + d)).toNat - 48 = d
      bv_omega
    unfold valueOf
    rw [decimalText_of_ne hm, List.map_reverse, List.reverse_reverse, List.map_map, hdigits,
      List.map_id, Nat.ofDigits_digits]

/-- The first digit of a number other than 0 is not 0. -/
theorem decimalText_head {m : ℕ} (hm : m ≠ 0) : (decimalText m).head? ≠ some 0x30#8 := by
  have hne : Nat.digits 10 m ≠ [] := Nat.digits_ne_nil_iff_ne_zero.mpr hm
  have hlast : (Nat.digits 10 m).getLast hne ≠ 0 := Nat.getLast_digit_ne_zero 10 hm
  have hlt : (Nat.digits 10 m).getLast hne < 10 :=
    Nat.digits_lt_base (by decide) (List.getLast_mem hne)
  rw [decimalText_of_ne hm, List.head?_reverse, List.getLast?_map,
    List.getLast?_eq_some_getLast hne]
  intro heq
  have hbyte := Option.some.inj heq
  bv_omega

/-- At the beginning of a string, digits are read up to the first other character. -/
theorem digitRun_append {str rest : List U8} (hstr : ∀ c ∈ str, IsDigit c)
    (hrest : ∀ c ∈ rest.head?, ¬ IsDigit c) : digitRun (str ++ rest) = str := by
  have hstop : digitRun rest = [] := by
    cases rest with
    | nil => exact List.takeWhile_nil
    | cons c rest => exact digitRun_cons_of_not (hrest c rfl)
  unfold digitRun at hstop ⊢
  rw [List.takeWhile_append_of_pos (by simpa using hstr), hstop, List.append_nil]

/-- `str_to_uint` reads a number back from its digits. -/
theorem strToUint_decimalText (n : U32) {rest : List U8} (hrest : ∀ c ∈ rest.head?, ¬ IsDigit c) :
    strToUint (decimalText n.toNat ++ rest) = n := by
  apply BitVec.eq_of_toNat_eq
  rw [strToUint_toNat, digitRun_append decimalText_isDigit hrest, valueOf_decimalText,
    Nat.mod_eq_of_lt n.isLt]

/-- The digits of a number other than 0 are in the buffer, with the zero behind them. -/
theorem uintLocals_holds (hn : n ≠ 0#32) (buf : Buffer 11) :
    HoldsString (uintLocals n buf).rest (decimalText n.toNat) := by
  have hlt := n.isLt
  have hend : arrayBytes ((buf.set 10 0#8).slice 10 (11 - 10)) = [0#8] :=
    arrayBytes_slice_set (by omega) 0#8
  have hbytes : arrayBytes (uintLocals n buf).rest = decimalText n.toNat ++ [0#8] := by
    unfold uintLocals
    rw [uintLoop_rest (le_refl 10), hend, uintDigits_eq _ (by omega),
      decimalText_of_ne (by bv_omega)]
  apply HoldsString.of_arrayBytes hbytes
  intro c hc
  have hdigit := decimalText_isDigit c hc
  rintro rfl
  exact absurd hdigit (by decide)

/-- `print_uint` prints the decimal text. -/
theorem uintChars_eq (n : U32) (buf : Buffer 11) : uintChars n buf = decimalText n.toNat := by
  unfold uintChars
  split_ifs with hn
  · rw [hn]
    rfl
  · exact (uintLocals_holds hn buf).cString_eq

end

/-- `print_uint` prints the decimal digits of its number, without zeros in front of them. They fit
into its buffer with the zero behind them, no byte outside the buffer is written, and `str_to_uint`
reads the number back from them. -/
theorem printUint_parsesBack (n : U32) (buf : Buffer 11) :
    (∀ s, printUint n s = printText (uintChars n buf) s) ∧
      uintChars n buf = decimalText n.toNat ∧
      (n ≠ 0#32 → (uintChars n buf).head? ≠ some 0x30#8) ∧
      (n ≠ 0#32 → HoldsString (uintLocals n buf).rest (uintChars n buf)) ∧
      (∀ i ∈ printUintStores n, i < 11) ∧
      ∀ rest, (∀ c ∈ rest.head?, ¬ IsDigit c) → strToUint (uintChars n buf ++ rest) = n := by
  rw [uintChars_eq]
  refine ⟨fun s => ?_, rfl, fun hn => ?_, fun hn => uintLocals_holds hn buf, ?_,
    fun rest hrest => ?_⟩
  · have hcall : PrintCall.uint n ≠ .char 8#8 := by simp
    exact (PrintCall.run_eq hcall s).1
  · exact decimalText_head (by bv_omega)
  · unfold printUintStores
    rw [List.forall_mem_cons]
    refine ⟨by omega, fun i hi => ?_⟩
    split_ifs at hi
    · exact absurd hi List.not_mem_nil
    · have hlt := uintLoopWrites_lt i hi
      omega
  · exact strToUint_decimalText n hrest

/-- The number 42 and a space behind it. -/
theorem fortyTwo_parsesBack : (uintChars 42#32 .zero).head? ≠ some 0x30#8 ∧
    strToUint (uintChars 42#32 .zero ++ [0x20#8]) = 42#32 := by
  obtain ⟨-, -, hhead, -, -, hparse⟩ := printUint_parsesBack 42#32 .zero
  exact ⟨hhead (by decide), hparse [0x20#8] (by simp [IsDigit])⟩

end AlderKernel.Shell
