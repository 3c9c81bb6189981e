import Mathlib

/-!
# Ascending lists of segments

A segment is a half-open interval of a linear order. In an ascending list each segment ends
where, or before, the next one starts. Two neighbours that meet may be joined, and read
backwards a segment may be cut, without changing what the list covers.
-/

namespace Segments

variable {α : Type*} [LinearOrder α]

/-- A half-open interval with its endpoints in order. -/
@[ext]
structure Segment (α : Type*) [LinearOrder α] where
  lo : α
  hi : α
  lo_le_hi : lo ≤ hi

/-- The points of a segment. -/
def Segment.points (s : Segment α) : Set α := Set.Ico s.lo s.hi

/-- Every segment ends before the later ones start. -/
def Ascending (l : List (Segment α)) : Prop := l.Pairwise fun s t => s.hi ≤ t.lo

/-- The points of all segments of a list. -/
def covered (l : List (Segment α)) : Set α := {x | ∃ s ∈ l, x ∈ s.points}

/-- Two segments that meet, as one. -/
def Segment.join (s t : Segment α) (h : s.hi = t.lo) : Segment α :=
  ⟨s.lo, t.hi, s.lo_le_hi.trans (h.le.trans t.lo_le_hi)⟩

/-- Joining loses and gains no point. -/
theorem Segment.points_join (s t : Segment α) (h : s.hi = t.lo) :
    (s.join t h).points = s.points ∪ t.points := by
  have hs : s.lo ≤ t.lo := s.lo_le_hi.trans h.le
  rw [points, points, points, h, Set.Ico_union_Ico_eq_Ico hs t.lo_le_hi]
  rfl

/-- What two lists cover together. -/
theorem covered_append (l l' : List (Segment α)) : covered (l ++ l') = covered l ∪ covered l' := by
  ext x
  simp only [covered, List.mem_append, Set.mem_ofPred_eq, Set.mem_union]
  constructor
  · rintro ⟨s, hs | hs, hx⟩
    · exact .inl ⟨s, hs, hx⟩
    · exact .inr ⟨s, hs, hx⟩
  · rintro (⟨s, hs, hx⟩ | ⟨s, hs, hx⟩)
    · exact ⟨s, .inl hs, hx⟩
    · exact ⟨s, .inr hs, hx⟩

/-- What a list covers, segment by segment. -/
theorem covered_cons (s : Segment α) (l : List (Segment α)) :
    covered (s :: l) = s.points ∪ covered l := by
  ext x
  simp [covered]

/-- Joining neighbours that meet changes nothing in what a list covers. -/
theorem covered_join (pre post : List (Segment α)) (s t : Segment α) (h : s.hi = t.lo) :
    covered (pre ++ s.join t h :: post) = covered (pre ++ s :: t :: post) := by
  simp only [covered_append, covered_cons, Segment.points_join, Set.union_assoc]

/-- A list with two neighbours that meet is ascending exactly when it is with the two joined. -/
theorem ascending_join (pre post : List (Segment α)) (s t : Segment α) (h : s.hi = t.lo) :
    Ascending (pre ++ s.join t h :: post) ↔ Ascending (pre ++ s :: t :: post) := by
  have hs : s.lo ≤ t.lo := s.lo_le_hi.trans h.le
  have ht : s.hi ≤ t.hi := h.le.trans t.lo_le_hi
  unfold Ascending
  rw [List.pairwise_append, List.pairwise_append, List.pairwise_cons, List.pairwise_cons,
    List.pairwise_cons]
  constructor
  · rintro ⟨hpre, ⟨hjoin, hpost⟩, hcross⟩
    refine ⟨hpre, ⟨?_, hjoin, hpost⟩, ?_⟩
    · rintro u (_ | ⟨_, hu⟩)
      · exact h.le
      · exact ht.trans (hjoin u hu)
    · rintro u hu v (_ | ⟨_, _ | ⟨_, hv⟩⟩)
      · exact hcross u hu (s.join t h) (.head _)
      · exact (hcross u hu (s.join t h) (.head _)).trans hs
      · exact hcross u hu v (.tail _ hv)
  · rintro ⟨hpre, ⟨-, hpost⟩, hcross⟩
    refine ⟨hpre, hpost, ?_⟩
    rintro u hu v (_ | ⟨_, hv⟩)
    · exact hcross u hu s (.head _)
    · exact hcross u hu v (.tail _ (.tail _ hv))

/-- A segment above all others may be appended. -/
theorem Ascending.concat {l : List (Segment α)} {s : Segment α} (h : Ascending l)
    (hs : ∀ t ∈ l, t.hi ≤ s.lo) : Ascending (l ++ [s]) := by
  refine List.pairwise_append.mpr ⟨h, List.pairwise_singleton _ _, ?_⟩
  rintro t ht u (_ | ⟨_, ⟨⟩⟩)
  exact hs t ht

/-- The segments of an ascending list share no point. -/
theorem Ascending.disjoint {l : List (Segment α)} (h : Ascending l) :
    l.Pairwise fun s t => Disjoint s.points t.points := by
  refine h.imp fun {s t} hst => Set.disjoint_left.mpr fun x hs ht => ?_
  exact absurd (hs.2.trans_le (hst.trans ht.1)) (lt_irrefl x)

/-- Segments with a gap between any two of them. -/
def Separated (l : List (Segment α)) : Prop := l.Pairwise fun s t => s.hi < t.lo

/-- Gaps between neighbours are enough. -/
theorem separated_of_isChain {l : List (Segment α)} (h : l.IsChain fun s t => s.hi < t.lo) :
    Separated l := by
  have htrans : Trans (fun s t : Segment α => s.hi < t.lo) (fun s t : Segment α => s.hi < t.lo)
      fun s t : Segment α => s.hi < t.lo :=
    ⟨fun hst htu => (hst.trans_le (Segment.lo_le_hi _)).trans htu⟩
  exact List.isChain_iff_pairwise.mp h

/-- The end of a separated segment is not covered. -/
theorem Separated.hi_notMem {l : List (Segment α)} {s : Segment α} (h : Separated l)
    (hs : s ∈ l) : s.hi ∉ covered l := by
  rintro ⟨t, ht, hlo, hhi⟩
  obtain ⟨pre, post, rfl⟩ := List.append_of_mem hs
  obtain ⟨-, hpost, hpre⟩ := List.pairwise_append.mp h
  rcases List.mem_append.mp ht with ht | ht
  · exact absurd ((hpre t ht s (.head _)).trans_le s.lo_le_hi) (lt_asymm hhi)
  · rcases List.mem_cons.mp ht with rfl | ht
    · exact lt_irrefl _ hhi
    · exact absurd ((List.pairwise_cons.mp hpost).1 t ht) (not_lt.mpr hlo)

/-- In front of a separated segment there is a gap. -/
theorem Separated.notMem_of_covBy {l : List (Segment α)} {s : Segment α} {x : α}
    (h : Separated l) (hs : s ∈ l) (hx : x ⋖ s.lo) : x ∉ covered l := by
  rintro ⟨t, ht, hlo, hhi⟩
  obtain ⟨pre, post, rfl⟩ := List.append_of_mem hs
  obtain ⟨-, hpost, hpre⟩ := List.pairwise_append.mp h
  rcases List.mem_append.mp ht with ht | ht
  · exact hx.2 hhi (hpre t ht s (.head _))
  · rcases List.mem_cons.mp ht with rfl | ht
    · exact absurd hx.1 (not_lt.mpr hlo)
    · have hgap := (List.pairwise_cons.mp hpost).1 t ht
      exact absurd (hx.1.trans_le (s.lo_le_hi.trans hgap.le)) (not_lt.mpr hlo)

/-- The first of several separated segments is decided by what they cover. -/
theorem Separated.head_le {l l' : List (Segment α)} {s s' : Segment α}
    (h' : Separated (s' :: l')) (hne : s.lo < s.hi) (hc : covered (s :: l) = covered (s' :: l')) :
    s'.lo ≤ s.lo ∧ (s.lo = s'.lo → s.hi ≤ s'.hi) := by
  have hmem {x : α} (hx : x ∈ s.points) : x ∈ covered (s' :: l') := by
    rw [← hc]
    exact ⟨s, .head _, hx⟩
  constructor
  · obtain ⟨t, ht, hlo, -⟩ := hmem (x := s.lo) ⟨le_rfl, hne⟩
    rcases List.mem_cons.mp ht with rfl | ht
    · exact hlo
    · exact (s'.lo_le_hi.trans ((List.pairwise_cons.mp h').1 t ht).le).trans hlo
  · intro heq
    by_contra hlt
    have hin : s'.hi ∈ s.points := ⟨heq.le.trans s'.lo_le_hi, not_le.mp hlt⟩
    exact h'.hi_notMem (.head _) (hmem hin)

/-- What separated segments cover decides the segments. -/
theorem Separated.eq_of_covered {l l' : List (Segment α)} (h : Separated l) (h' : Separated l')
    (hne : ∀ s ∈ l, s.lo < s.hi) (hne' : ∀ s ∈ l', s.lo < s.hi)
    (hc : covered l = covered l') : l = l' := by
  have hempty {s : Segment α} {l : List (Segment α)} (hs : s.lo < s.hi) :
      covered (s :: l) ≠ covered [] := by
    intro heq
    have hmem : s.lo ∈ covered ([] : List (Segment α)) := heq ▸ ⟨s, .head _, le_rfl, hs⟩
    obtain ⟨t, ht, -⟩ := hmem
    exact absurd ht List.not_mem_nil
  -- Behind equal first segments the same points are covered.
  have htail {s : Segment α} {l l' : List (Segment α)} (hl : Separated (s :: l))
      (hc : covered (s :: l) = covered (s :: l')) : covered l ⊆ covered l' := by
    rintro x ⟨t, ht, hx⟩
    have hmem : x ∈ covered (s :: l') := hc ▸ ⟨t, .tail _ ht, hx⟩
    rw [covered_cons] at hmem
    refine hmem.resolve_left fun hs => ?_
    exact absurd (hs.2.trans ((List.pairwise_cons.mp hl).1 t ht)) (not_lt.mpr hx.1)
  induction l generalizing l' with
  | nil =>
    cases l' with
    | nil => rfl
    | cons s' l' => exact absurd hc.symm (hempty (hne' s' (.head _)))
  | cons s l ih =>
    cases l' with
    | nil => exact absurd hc (hempty (hne s (.head _)))
    | cons s' l' =>
      obtain ⟨hle, hhi⟩ := h'.head_le (hne s (.head _)) hc
      obtain ⟨hle', hhi'⟩ := h.head_le (hne' s' (.head _)) hc.symm
      have hlo : s.lo = s'.lo := le_antisymm hle' hle
      obtain rfl : s = s' := Segment.ext hlo (le_antisymm (hhi hlo) (hhi' hlo.symm))
      have hrest : covered l = covered l' :=
        Set.Subset.antisymm (htail h hc) (htail h' hc.symm)
      rw [ih (List.pairwise_cons.mp h).2 (List.pairwise_cons.mp h').2
        (fun t ht => hne t (.tail _ ht)) (fun t ht => hne' t (.tail _ ht)) hrest]

end Segments
