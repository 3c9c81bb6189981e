import Mathlib

/-!
# Pages of text

An endless page has rows of `w` cells, filled from left to right and from top to bottom. A window of
`h` rows, numbered one after the other, shows the page from some row on; it follows the page
when each step that leaves its last row is answered by scrolling one row.
-/

/-- A page, and the cell that is filled next. -/
structure Page (α : Type*) where
  cell : ℕ → ℕ → α
  row : ℕ
  col : ℕ

namespace Page

variable {α : Type*}

/-- A page on which nothing stands. -/
def empty (blank : α) : Page α := ⟨fun _ _ => blank, 0, 0⟩

/-- The start of the next row. -/
def newRow (p : Page α) : Page α := { p with row := p.row + 1, col := 0 }

/-- Fill a cell of a page with rows of `w` cells. -/
def fill (w : ℕ) (a : α) (p : Page α) : Page α where
  cell r c := if r = p.row ∧ c = p.col then a else p.cell r c
  row := if p.col + 1 < w then p.row else p.row + 1
  col := if p.col + 1 < w then p.col + 1 else 0

/-- The first of the last `h` rows, up to the row of the next cell. -/
def top (h : ℕ) (p : Page α) : ℕ := p.row + 1 - h

/-- A window of `h` rows after scrolling by one row. -/
def scrolled (w h : ℕ) (blank : α) (view : ℕ → α) (i : ℕ) : α :=
  if i + w < h * w then view (i + w) else blank

/-- The next cell is in a row, and from there on the page is blank. -/
structure WellFormed (w : ℕ) (blank : α) (p : Page α) : Prop where
  col_lt : p.col < w
  blank : ∀ r c, c < w → p.row < r ∨ r = p.row ∧ p.col ≤ c → p.cell r c = blank

/-- A window of `h` rows shows the page from row `t` on, and its cursor is at the next cell. -/
structure Shows (w h t : ℕ) (p : Page α) (view : ℕ → α) (cursor : ℕ) : Prop where
  top_le : t ≤ p.row
  cursor_eq : cursor = (p.row - t) * w + p.col
  cells : ∀ r < h, ∀ c < w, view (r * w + c) = p.cell (t + r) c

variable {w h t cursor : ℕ} {a blank : α} {p : Page α} {view : ℕ → α}

/-- The empty page is well formed. -/
theorem empty_wellFormed (blank : α) (hw : 0 < w) : (empty blank).WellFormed w blank :=
  ⟨hw, fun _ _ _ _ => rfl⟩

/-- A new row keeps a page well formed. -/
theorem WellFormed.newRow (hp : p.WellFormed w blank) : p.newRow.WellFormed w blank := by
  have hcol := hp.col_lt
  refine ⟨Nat.zero_lt_of_lt hcol, fun r c hc hr => hp.blank r c hc ?_⟩
  simp only [Page.newRow] at hr
  omega

/-- Filling a cell keeps a page well formed. -/
theorem WellFormed.fill (hp : p.WellFormed w blank) : (p.fill w a).WellFormed w blank := by
  have hcol := hp.col_lt
  constructor
  · simp only [Page.fill]
    split_ifs <;> omega
  · intro r c hc hr
    simp only [Page.fill] at hr ⊢
    rw [if_neg]
    · apply hp.blank r c hc
      split_ifs at hr <;> omega
    · split_ifs at hr <;> omega

/-- Where the next cell is at the start of a row, that row is blank. -/
theorem WellFormed.blank_row (hp : p.WellFormed w blank) (hcol : p.col = 0) {c : ℕ} (hc : c < w) :
    p.cell p.row c = blank :=
  hp.blank _ _ hc (.inr ⟨rfl, by omega⟩)

/-- The cells of the first `h` rows are the first `h * w` ones. -/
theorem index_lt {r c : ℕ} (hr : r < h) (hc : c < w) : r * w + c < h * w := by
  have hmul := Nat.mul_le_mul_right w (Nat.succ_le_of_lt hr)
  rw [Nat.succ_mul] at hmul
  omega

/-- A window number belongs to one row and column. -/
theorem index_inj {r r' c c' : ℕ} (hc : c < w) (hc' : c' < w) (heq : r * w + c = r' * w + c') :
    r = r' ∧ c = c' := by
  have hw : 0 < w := Nat.zero_lt_of_lt hc
  have hrow : (r * w + c) / w = r := by
    rw [Nat.add_comm, Nat.add_mul_div_right _ _ hw, Nat.div_eq_of_lt hc, Nat.zero_add]
  have hrow' : (r' * w + c') / w = r' := by
    rw [Nat.add_comm, Nat.add_mul_div_right _ _ hw, Nat.div_eq_of_lt hc', Nat.zero_add]
  have hr : r = r' := by rw [← hrow, heq, hrow']
  subst hr
  exact ⟨rfl, Nat.add_left_cancel heq⟩

/-- A window does not depend on what lies behind it. -/
theorem Shows.congr {view' : ℕ → α} (hs : Shows w h t p view cursor)
    (heq : ∀ i < h * w, view' i = view i) : Shows w h t p view' cursor := by
  refine ⟨hs.top_le, hs.cursor_eq, fun r hr c hc => ?_⟩
  rw [heq _ (index_lt hr hc), hs.cells r hr c hc]

/-- A cursor in one of the rows of the window is in front of its end. -/
theorem Shows.cursor_lt (hs : Shows w h t p view cursor) (hcol : p.col < w) (hrow : p.row < t + h) :
    cursor < h * w := by
  have htop := hs.top_le
  rw [hs.cursor_eq]
  exact index_lt (by omega) hcol

/-- The cursor reaches the end of the window with the row behind its last one. -/
theorem Shows.cursor_ge (hs : Shows w h t p view cursor) (hrow : t + h ≤ p.row) :
    h * w ≤ cursor := by
  have hle : h ≤ p.row - t := by omega
  have hmul := Nat.mul_le_mul_right w hle
  have hcursor := hs.cursor_eq
  omega

/-- The cursor goes to the start of the next row. -/
theorem Shows.newRow (hs : Shows w h t p view cursor) :
    Shows w h t p.newRow view ((p.row - t + 1) * w) where
  top_le := Nat.le_succ_of_le hs.top_le
  cursor_eq := by
    have htop := hs.top_le
    simp [Page.newRow, Nat.sub_add_comm htop]
  cells := hs.cells

/-- Filling a cell at the cursor. -/
theorem Shows.fill (hs : Shows w h t p view cursor) (hp : p.WellFormed w blank) :
    Shows w h t (p.fill w a) (Function.update view cursor a) (cursor + 1) := by
  have htop := hs.top_le
  have hcol := hp.col_lt
  refine ⟨?_, ?_, ?_⟩
  · simp only [Page.fill]
    split_ifs <;> omega
  · have hcursor := hs.cursor_eq
    simp only [Page.fill]
    split_ifs with hlt
    · omega
    · rw [Nat.sub_add_comm htop, Nat.succ_mul]
      omega
  · intro r hr c hc
    simp only [Page.fill]
    by_cases hat : t + r = p.row ∧ c = p.col
    · have hindex : r * w + c = cursor := by
        rw [hs.cursor_eq, ← hat.1, hat.2, Nat.add_sub_cancel_left]
      rw [if_pos hat, hindex, Function.update_self]
    · have hindex : r * w + c ≠ cursor := by
        intro heq
        rw [hs.cursor_eq] at heq
        obtain ⟨hrow, hcol⟩ := index_inj hc hcol heq
        exact hat ⟨by omega, hcol⟩
      rw [if_neg hat, Function.update_of_ne hindex, hs.cells r hr c hc]

/-- Scrolling when the next cell is the first one behind the window. -/
theorem Shows.scroll (hs : Shows w h t p view cursor) (hp : p.WellFormed w blank) (hh : 0 < h)
    (hrow : p.row = t + h) (hcol : p.col = 0) :
    Shows w h (t + 1) p (scrolled w h blank view) (cursor - w) := by
  refine ⟨by omega, ?_, ?_⟩
  · have hcursor := hs.cursor_eq
    rw [hrow, Nat.add_sub_cancel_left] at hcursor
    rw [hrow, show t + h - (t + 1) = h - 1 by omega, Nat.sub_mul]
    omega
  · intro r hr c hc
    unfold scrolled
    rw [show r * w + c + w = (r + 1) * w + c by rw [Nat.succ_mul]; omega,
      show t + 1 + r = t + (r + 1) by omega]
    by_cases hlast : r + 1 < h
    · rw [if_pos (index_lt hlast hc), hs.cells _ hlast c hc]
    · have hge : ¬ (r + 1) * w + c < h * w := by
        have hmul := Nat.mul_le_mul_right w (Nat.not_lt.mp hlast)
        omega
      rw [if_neg hge, show t + (r + 1) = p.row by omega, hp.blank_row hcol hc]

end Page
