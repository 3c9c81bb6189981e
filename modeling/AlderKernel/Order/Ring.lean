import Mathlib

/-!
# Queues in a ring of slots

A ring has `n` slots, numbered modulo `n`. Its queue starts at the slot `tail` and ends in front of
the slot `head`, so one slot always stays unused and an empty ring differs from a full one.

A ring that is only written to keeps the last `n` items, with a count that stops at `n`.
-/

namespace Ring

variable {α : Type*} {n tail head : ℕ} {slot slot' : ℕ → α} {q : List α} {a : α}

/-- The slots from `tail` up to `head` hold the queue. -/
structure Holds (n : ℕ) (slot : ℕ → α) (tail head : ℕ) (q : List α) : Prop where
  tail_lt : tail < n
  length_lt : q.length < n
  head_eq : head = (tail + q.length) % n
  slots : ∀ i (hi : i < q.length), slot ((tail + i) % n) = q[i]

/-- An empty ring. -/
theorem holds_nil (slot : ℕ → α) (h : tail < n) : Holds n slot tail tail [] :=
  ⟨h, Nat.zero_lt_of_lt h, (Nat.mod_eq_of_lt h).symm, fun _ hi => absurd hi (Nat.not_lt_zero _)⟩

/-- Offsets below the number of slots that lead to the same slot are the same. -/
theorem offset_inj {i j : ℕ} (hi : i < n) (hj : j < n) (h : (tail + i) % n = (tail + j) % n) :
    i = j := by
  have hmod : i ≡ j [MOD n] := Nat.ModEq.add_left_cancel' tail h
  exact hmod.eq_of_lt_of_lt hi hj

/-- The indices are equal when the queue is empty, and only then. -/
theorem Holds.empty_iff (h : Holds n slot tail head q) : tail = head ↔ q = [] := by
  rw [h.head_eq, ← List.length_eq_zero_iff]
  constructor
  · intro heq
    have hsame : (tail + 0) % n = (tail + q.length) % n := by
      rw [← heq, Nat.add_zero, Nat.mod_eq_of_lt h.tail_lt]
    exact (offset_inj (Nat.zero_lt_of_lt h.tail_lt) h.length_lt hsame).symm
  · intro hzero
    rw [hzero, Nat.add_zero, Nat.mod_eq_of_lt h.tail_lt]

/-- The slot behind the head is the tail when the queue fills all slots but one, and only then. -/
theorem Holds.full_iff (h : Holds n slot tail head q) :
    (head + 1) % n = tail ↔ q.length + 1 = n := by
  have hnext : (head + 1) % n = (tail + (q.length + 1)) % n := by
    rw [h.head_eq, Nat.mod_add_mod, Nat.add_assoc]
  rw [hnext]
  constructor
  · intro heq
    by_contra hne
    have hlt : q.length + 1 < n := by
      have hlength := h.length_lt
      omega
    have hsame : (tail + (q.length + 1)) % n = (tail + 0) % n := by
      rw [heq, Nat.add_zero, Nat.mod_eq_of_lt h.tail_lt]
    exact absurd (offset_inj hlt (Nat.zero_lt_of_lt h.tail_lt) hsame) (Nat.succ_ne_zero _)
  · intro hfull
    rw [hfull, Nat.add_mod_right, Nat.mod_eq_of_lt h.tail_lt]

/-- Writing the slot at the head and advancing the head appends to the queue, where a slot is
left. -/
theorem Holds.push (h : Holds n slot tail head q) (hroom : q.length + 1 < n)
    (hself : slot' head = a) (hother : ∀ i < n, i ≠ head → slot' i = slot i) :
    Holds n slot' tail ((head + 1) % n) (q ++ [a]) := by
  have hpos : 0 < n := Nat.zero_lt_of_lt h.tail_lt
  refine ⟨h.tail_lt, by simpa using hroom, ?_, fun i hi => ?_⟩
  · rw [h.head_eq, Nat.mod_add_mod, List.length_append]
    rfl
  · rw [List.length_append, List.length_singleton] at hi
    rcases Nat.lt_succ_iff_lt_or_eq.mp hi with hlt | rfl
    · have hne : (tail + i) % n ≠ head := by
        rw [h.head_eq]
        exact fun heq => absurd (offset_inj (by omega) h.length_lt heq) (Nat.ne_of_lt hlt)
      rw [hother _ (Nat.mod_lt _ hpos) hne, h.slots i hlt, List.getElem_append_left hlt]
    · rw [← h.head_eq, hself]
      simp

/-- The slot at the tail holds the first of the queue. -/
theorem Holds.first (h : Holds n slot tail head (a :: q)) : slot tail = a := by
  have hfirst := h.slots 0 (Nat.succ_pos _)
  rwa [Nat.add_zero, Nat.mod_eq_of_lt h.tail_lt] at hfirst

/-- Advancing the tail removes the first of the queue. -/
theorem Holds.pop (h : Holds n slot tail head (a :: q)) :
    Holds n slot ((tail + 1) % n) head q := by
  have hlength := h.length_lt
  rw [List.length_cons] at hlength
  refine ⟨Nat.mod_lt _ (Nat.zero_lt_of_lt h.tail_lt), by omega, ?_, fun i hi => ?_⟩
  · rw [h.head_eq, Nat.mod_add_mod, List.length_cons, Nat.add_assoc, Nat.add_comm 1]
  · have hnext := h.slots (i + 1) (Nat.succ_lt_succ hi)
    rw [List.getElem_cons_succ] at hnext
    rw [Nat.mod_add_mod, ← hnext, Nat.add_assoc, Nat.add_comm 1]

/-! ### The last items -/

section

variable {β : Type*} {R : α → β → Prop} {next count i : ℕ} {items : List β} {b : β}

/-- The slots in front of `next` stand for the last items, the newest first. -/
structure Latest (R : α → β → Prop) (n : ℕ) (slot : ℕ → α) (next count : ℕ) (items : List β) :
    Prop where
  next_lt : next < n
  count_eq : count = min n items.length
  slots : ∀ i (hi : i < items.length), i < n → R (slot ((next + n - 1 - i) % n)) items[i]

/-- A ring to which nothing was added stands for no values. -/
theorem latest_nil (R : α → β → Prop) (slot : ℕ → α) (h : 0 < n) : Latest R n slot 0 0 [] :=
  ⟨h, (Nat.min_zero n).symm, fun _ hi => absurd hi (Nat.not_lt_zero _)⟩

/-- Advancing `next` goes to the following slot, or from the last slot to the first. -/
theorem next_slot (h : next < n) :
    (next + 1) % n = next + 1 ∨ (next + 1) % n = 0 ∧ next + 1 = n := by
  rcases Nat.lt_or_ge (next + 1) n with hlt | hge
  · exact .inl (Nat.mod_eq_of_lt hlt)
  · have hlast : next + 1 = n := by omega
    exact .inr ⟨by rw [hlast, Nat.mod_self], hlast⟩

/-- The first slot behind the advanced `next` is the old `next`. -/
theorem slot_back_zero (h : next < n) : ((next + 1) % n + n - 1 - 0) % n = next := by
  rcases next_slot h with hnext | ⟨hnext, hlast⟩
  · rw [hnext, show next + 1 + n - 1 - 0 = next + n by omega, Nat.add_mod_right, Nat.mod_eq_of_lt h]
  · rw [hnext, show 0 + n - 1 - 0 = next by omega, Nat.mod_eq_of_lt h]

/-- Every other slot is one further behind it than before. -/
theorem slot_back_succ (h : next < n) (hi : i + 1 < n) :
    ((next + 1) % n + n - 1 - (i + 1)) % n = (next + n - 1 - i) % n := by
  rcases next_slot h with hnext | ⟨hnext, hlast⟩
  · rw [hnext, show next + 1 + n - 1 - (i + 1) = next + n - 1 - i by omega]
  · rw [hnext, show next + n - 1 - i = 0 + n - 1 - (i + 1) + n by omega, Nat.add_mod_right]

/-- Only the last of the slots behind `next` is `next` itself. -/
theorem slot_back_ne (h : next < n) (hi : i + 1 < n) : (next + n - 1 - i) % n ≠ next := by
  intro heq
  have hsame : (next + (n - 1 - i)) % n = (next + 0) % n := by
    rw [Nat.add_zero, Nat.mod_eq_of_lt h, show next + (n - 1 - i) = next + n - 1 - i by omega, heq]
  have hzero := offset_inj (by omega) (by omega) hsame
  omega

/-- Writing the slot at `next` makes its content the newest of the items. -/
theorem Latest.push (h : Latest R n slot next count items) (slot' : ℕ → α)
    (hself : R (slot' next) b) (hother : ∀ i < n, i ≠ next → slot' i = slot i) :
    Latest R n slot' ((next + 1) % n) (if count < n then count + 1 else count) (b :: items) := by
  obtain ⟨hnext, hcount, hslots⟩ := h
  have hpos : 0 < n := Nat.zero_lt_of_lt hnext
  refine ⟨Nat.mod_lt _ hpos, ?_, fun i hi hin => ?_⟩
  · rw [List.length_cons]
    split_ifs with hlt <;> omega
  · cases i with
    | zero =>
      rw [slot_back_zero hnext]
      exact hself
    | succ i =>
      rw [slot_back_succ hnext hin, hother _ (Nat.mod_lt _ hpos) (slot_back_ne hnext hin)]
      exact hslots i (Nat.lt_of_succ_lt_succ hi) (by omega)

end

end Ring
