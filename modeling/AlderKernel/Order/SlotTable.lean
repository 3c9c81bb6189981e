import Mathlib

/-!
# Tables of slots with an end marker

A table of slots that is searched in order. The slots in front of the first ended one are the
table's list; slots behind it are ended as well. A new element goes to a free slot of the list
or to the first ended slot.
-/

namespace SlotTable

variable {α β : Type*}

/-- Put an element in place of the `i`-th one, or behind the last one. -/
def place (i : ℕ) (a : α) (l : List α) : List α := l.take i ++ a :: l.drop (i + 1)

section

variable {i : ℕ} {a : α} {l : List α}

/-- The value at each index after a value was placed. -/
theorem getElem?_place (hi : i ≤ l.length) (j : ℕ) :
    (place i a l)[j]? = if j = i then some a else l[j]? := by
  have hlen : (l.take i).length = i := List.length_take_of_le hi
  unfold place
  rcases Nat.lt_trichotomy j i with hlt | rfl | hgt
  · rw [List.getElem?_append_left (by omega), List.getElem?_take_of_lt hlt, if_neg (by omega)]
  · rw [List.getElem?_append_right (by omega), hlen, Nat.sub_self, if_pos rfl]
    rfl
  · obtain ⟨k, rfl⟩ := Nat.exists_eq_add_of_lt hgt
    rw [List.getElem?_append_right (by omega), hlen, if_neg (by omega),
      show i + k + 1 - i = k + 1 by omega, List.getElem?_cons_succ, List.getElem?_drop,
      show i + 1 + k = i + k + 1 by omega]

/-- A value of the new list is the placed one or an old one. -/
theorem mem_place {b : α} (h : b ∈ place i a l) : b = a ∨ b ∈ l := by
  rcases List.mem_append.mp h with htake | hdrop
  · exact Or.inr (List.mem_of_mem_take htake)
  · rcases List.mem_cons.mp hdrop with rfl | hdrop
    · exact Or.inl rfl
    · exact Or.inr (List.mem_of_mem_drop hdrop)

/-- A value that is placed in a table of so many slots leaves no more values than slots. -/
theorem length_place_le {n : ℕ} (hl : l.length ≤ n) (hi : i < n) : (place i a l).length ≤ n := by
  unfold place
  rw [List.length_append, List.length_cons, List.length_take, List.length_drop]
  omega

end

/-- The first `n` slots of a table are the elements of a list, and ended slots behind them. -/
structure Holds (ended : α → Bool) (slot : ℕ → α) (n : ℕ) (l : List α) : Prop where
  length_le : l.length ≤ n
  slot_eq : ∀ i a, l[i]? = some a → slot i = a
  live : ∀ a ∈ l, ended a = false
  rest : ∀ i, l.length ≤ i → i < n → ended (slot i) = true

/-- The slots from `i` on, `n` at most, up to the first ended one. -/
def liveFrom (ended : α → Bool) (slot : ℕ → α) (i n : ℕ) : List α :=
  ((List.range' i n).map slot).takeWhile fun a => !ended a

/-- One of the `n` slots from `i` on is ended. -/
def reachesEnd (ended : α → Bool) (slot : ℕ → α) (i n : ℕ) : Bool :=
  ((List.range' i n).map slot).any ended

variable {ended : α → Bool} {slot slot' : ℕ → α} {i n : ℕ} {a : α} {l : List α}

/-- The live slots from an index on, by the first of them. -/
theorem liveFrom_succ : liveFrom ended slot i (n + 1) =
    if ended (slot i) then [] else slot i :: liveFrom ended slot (i + 1) n := by
  unfold liveFrom
  rw [List.range'_succ, List.map_cons, List.takeWhile_cons]
  cases ended (slot i)
  · rfl
  · rfl

/-- Whether the end mark is reached, by the first slot. -/
theorem reachesEnd_succ : reachesEnd ended slot i (n + 1) =
    (ended (slot i) || reachesEnd ended slot (i + 1) n) := by
  unfold reachesEnd
  rw [List.range'_succ, List.map_cons, List.any_cons]

/-- A search over `m` slots goes on behind them when none is ended. -/
theorem liveFrom_add (m : ℕ) : liveFrom ended slot i (m + n) = liveFrom ended slot i m ++
    if reachesEnd ended slot i m then [] else liveFrom ended slot (i + m) n := by
  induction m generalizing i with
  | zero => rw [Nat.zero_add]; rfl
  | succ m ih =>
    rw [show m + 1 + n = m + n + 1 by omega, liveFrom_succ, liveFrom_succ, reachesEnd_succ, ih,
      show i + (m + 1) = i + 1 + m by omega]
    cases ended (slot i)
    · rfl
    · rfl

/-- The slots of two tables agree, from different slots on. -/
theorem slots_congr {m : ℕ} (h : ∀ j < n, slot' (m + j) = slot (i + j)) :
    (List.range' m n).map slot' = (List.range' i n).map slot := by
  apply List.ext_getElem
  · simp
  · intro j hj hj'
    simpa using h j (by simpa using hj)

/-- The live slots depend on the slots that are looked at. -/
theorem liveFrom_congr (h : ∀ j, i ≤ j → j < i + n → slot' j = slot j) :
    liveFrom ended slot' i n = liveFrom ended slot i n := by
  unfold liveFrom
  rw [List.map_congr_left]
  intro j hj
  obtain ⟨hj, hj'⟩ := List.mem_range'_1.mp hj
  exact h j hj hj'

namespace Holds

/-- A table is its list. -/
theorem liveFrom_eq (h : Holds ended slot n l) : liveFrom ended slot 0 n = l := by
  have hlist : (List.range' 0 l.length).map slot = l := by
    apply List.ext_getElem?
    intro j
    rw [List.getElem?_map]
    rcases Nat.lt_or_ge j l.length with hj | hj
    · rw [List.getElem?_range' hj, List.getElem?_eq_getElem hj]
      simp only [Nat.zero_add, Nat.one_mul, Option.map_some]
      rw [h.slot_eq j l[j] (List.getElem?_eq_getElem hj)]
    · rw [List.getElem?_eq_none hj, List.getElem?_eq_none (by simpa using hj)]
      rfl
  obtain ⟨m, rfl⟩ := Nat.exists_eq_add_of_le h.length_le
  have hfirst : liveFrom ended slot 0 l.length = l := by
    unfold liveFrom
    rw [hlist, List.takeWhile_eq_self_iff]
    intro a ha
    rw [h.live a ha]
    rfl
  rw [liveFrom_add, hfirst]
  have hrest : liveFrom ended slot (0 + l.length) m = [] := by
    cases m with
    | zero => rfl
    | succ m => rw [liveFrom_succ, if_pos (h.rest _ (by omega) (by omega))]
  rw [hrest, ite_self, List.append_nil]

/-- Slots beyond the table do not matter. -/
theorem congr (h : Holds ended slot n l) (hslot : ∀ j < n, slot' j = slot j) :
    Holds ended slot' n l where
  length_le := h.length_le
  live := h.live
  slot_eq j a hj := by
    have hlt := (List.getElem?_eq_some_iff.mp hj).1
    have hle := h.length_le
    rw [hslot j (by omega), h.slot_eq j a hj]
  rest j hj hj' := by rw [hslot j hj', h.rest j hj hj']

/-- Putting an element in a slot of the list, or in the first ended slot. -/
theorem place (h : Holds ended slot n l) (hi : i ≤ l.length) (hin : i < n)
    (ha : ended a = false) (hslot : ∀ j < n, slot' j = if j = i then a else slot j) :
    Holds ended slot' n (place i a l) where
  length_le := length_place_le h.length_le hin
  live b hb := by
    rcases mem_place hb with rfl | hb
    · exact ha
    · exact h.live b hb
  slot_eq j b hj := by
    have hle := h.length_le
    rw [getElem?_place hi] at hj
    split_ifs at hj with hji
    · rw [hslot j (by omega), if_pos hji, Option.some.inj hj]
    · have hlt := (List.getElem?_eq_some_iff.mp hj).1
      rw [hslot j (by omega), if_neg hji, h.slot_eq j b hj]
  rest j hj hj' := by
    have hlt : i < (SlotTable.place i a l).length := by
      have hsome := getElem?_place (a := a) hi i
      rw [if_pos rfl] at hsome
      exact (List.getElem?_eq_some_iff.mp hsome).1
    have hlen : l.length ≤ j := by
      by_contra hcon
      have hnone := getElem?_place (a := a) hi j
      rw [List.getElem?_eq_none hj, if_neg (by omega)] at hnone
      exact absurd (List.getElem?_eq_none_iff.mp hnone.symm) (by omega)
    rw [hslot j hj', if_neg (by omega), h.rest j hlen hj']

/-- A slot with only used slots in front of it is one of the list, or the first behind it. -/
theorem le_length {free : α → Bool} (h : Holds ended slot n l)
    (hfree : ∀ b, ended b = true → free b = true) (hi : i ≤ n)
    (hused : ∀ j < i, free (slot j) = false) : i ≤ l.length := by
  by_contra hlt
  have hend := hfree _ (h.rest l.length (by omega) (by omega))
  rw [hused l.length (by omega)] at hend
  exact absurd hend (by decide)

end Holds

end SlotTable
