import AlderKernel.Machine.Memory

/-!
# Arrays of words

A loop that fills an array of 32-bit words, and what the memory holds after it.
-/

namespace Machine

/-- The value of two bit vectors in a row. -/
theorem append_toNat {m n : ℕ} (a : BitVec m) (b : BitVec n) :
    (a ++ b).toNat = a.toNat * 2 ^ n + b.toNat := by
  rw [BitVec.toNat_append, ← Nat.shiftLeft_add_eq_or_of_lt b.isLt, Nat.shiftLeft_eq]

/-- The address of a word of the array at `base`. -/
def wordAddr (base : U32) (i : ℕ) : U32 := base + BitVec.ofNat 32 (4 * i)

/-- Different words of an array that ends inside the address space are separated. -/
theorem apart_words {base : U32} {i j n : ℕ} (hi : i < n) (hj : j < n) (hne : i ≠ j)
    (hmax : base.toNat + 4 * n ≤ 2 ^ 32) : Apart (wordAddr base i) 4 (wordAddr base j) 4 := by
  unfold Apart wordAddr
  bv_omega

namespace Memory

/-- The loop `for (i = first; i < first + n; i++) base[i] = f(i)`. -/
def storeWords (base : U32) (f : ℕ → U32) : ℕ → ℕ → Memory → Memory
  | 0, _, m => m
  | n + 1, first, m => storeWords base f n (first + 1) (m.store32 (wordAddr base first) (f first))

section

variable {base b : U32} {f : ℕ → U32} {n first k : ℕ} {m : Memory}

/-- The loop leaves a word alone that is separated from all the words that it stores. -/
theorem load32_storeWords_of_apart
    (h : ∀ i, first ≤ i → i < first + n → Apart (wordAddr base i) 4 b 4) :
    (storeWords base f n first m).load32 b = m.load32 b := by
  induction n generalizing first m with
  | zero => rfl
  | succ n ih =>
    unfold storeWords
    rw [ih fun i hlo hhi => h i (by omega) (by omega)]
    exact load32_store32_of_apart (h first le_rfl (by omega))

/-- It stores every word of its range. -/
theorem load32_storeWords (hlo : first ≤ k) (hhi : k < first + n)
    (hmax : base.toNat + 4 * (first + n) ≤ 2 ^ 32) :
    (storeWords base f n first m).load32 (wordAddr base k) = f k := by
  induction n generalizing first m with
  | zero => omega
  | succ n ih =>
    unfold storeWords
    by_cases hk : k = first
    · subst hk
      have hlater (i : ℕ) (hlo : k + 1 ≤ i) (hhi : i < k + 1 + n) :
          Apart (wordAddr base i) 4 (wordAddr base k) 4 :=
        apart_words (n := k + (n + 1)) (by omega) (by omega) (by omega) hmax
      rw [load32_storeWords_of_apart hlater, load32_store32_self]
    · exact ih (by omega) (by omega) (by omega)

end

end Memory

end Machine
