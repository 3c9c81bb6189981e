import AlderKernel.Mm.MemoryMap

/-!
# Where the walk over the memory map reads

The walk of `pmm_init` takes the size of every entry from the data. On a map that is a sequence of
whole entries it ends and stays inside the map. It checks neither, so a size that leads back to its
own entry keeps it there, and of an entry that is cut off it reads what follows the map.
-/

namespace AlderKernel.Mm

open Machine

/-- The fields of `multiboot_mmap_entry_t`. -/
inductive MapField where
  | size
  | baseAddr
  | length
  | type

/-- Where a field stands in its entry, and how many bytes it has. -/
def MapField.place : MapField → U32 × ℕ
  | size => (0#32, 4)
  | baseAddr => (4#32, 8)
  | length => (12#32, 8)
  | type => (20#32, 4)

/-- The fields that one turn of the walk reads. -/
def entryReads (m : Memory) (ptr : U32) : List (U32 × MapField) :=
  (ptr, .type) :: (if m.load32 (ptr + 20#32) = 1#32 then
    [(ptr, .baseAddr), (ptr, .length), (ptr, .baseAddr)] else []) ++ [(ptr, .size)]

/-- The fields that the walk from `ptr` on reads. -/
def mapReads (m : Memory) (stop : U32) : ℕ → U32 → Option (List (U32 × MapField))
  | 0, _ => none
  | turns + 1, ptr =>
    if ptr < stop then
      (mapReads m stop turns (ptr + (m.load32 ptr + 4#32))).map (entryReads m ptr ++ ·)
    else some []

/-- All bytes of a field lie from `lo` up to `hi`. -/
def ReadInside (lo hi : ℕ) (r : U32 × MapField) : Prop :=
  lo ≤ (r.1 + r.2.place.1).toNat ∧ (r.1 + r.2.place.1).toNat + r.2.place.2 ≤ hi

instance (lo hi : ℕ) (r : U32 × MapField) : Decidable (ReadInside lo hi r) :=
  inferInstanceAs (Decidable (_ ∧ _))

/-- The entry behind another one. -/
def nextEntry (m : Memory) (ptr : U32) : U32 := ptr + (m.load32 ptr + 4#32)

/-- The entry has room for its fields, and ends where `stop` is or in front of it. -/
def WholeEntry (m : Memory) (stop ptr : U32) : Prop :=
  20 ≤ (m.load32 ptr).toNat ∧ ptr.toNat + (m.load32 ptr).toNat + 4 ≤ stop.toNat

/-- The walk from `start` on comes to an entry. -/
inductive ComesTo (m : Memory) (stop start : U32) : U32 → Prop
  | first (hlt : start < stop) : ComesTo m stop start start
  | next {ptr : U32} (h : ComesTo m stop start ptr) (hlt : nextEntry m ptr < stop) :
      ComesTo m stop start (nextEntry m ptr)

/-- Every entry that the walk comes to is whole. -/
def WholeEntries (m : Memory) (stop start : U32) : Prop :=
  ∀ ptr, ComesTo m stop start ptr → WholeEntry m stop ptr

section

variable {m : Memory} {stop ptr : U32} {turns lo hi : ℕ}

/-- Where the walk from the second entry on comes to, the whole walk comes to. -/
theorem ComesTo.cons {q : U32} (hlt : ptr < stop) (h : ComesTo m stop (nextEntry m ptr) q) :
    ComesTo m stop ptr q := by
  induction h with
  | first hnext => exact .next (.first hlt) hnext
  | next _ hnext ih => exact .next ih hnext

/-- A whole entry is read inside. -/
theorem WholeEntry.readInside (h : WholeEntry m stop ptr) (hlo : lo ≤ ptr.toNat)
    (hhi : stop.toNat ≤ hi) (r : U32 × MapField) (hr : r.1 = ptr) : ReadInside lo hi r := by
  obtain ⟨hsize, hend⟩ := h
  obtain ⟨ptr', f⟩ := r
  obtain rfl := hr
  have hlt := stop.isLt
  unfold ReadInside
  cases f with
  | size =>
    change lo ≤ (ptr' + 0#32).toNat ∧ (ptr' + 0#32).toNat + 4 ≤ hi
    bv_omega
  | baseAddr =>
    change lo ≤ (ptr' + 4#32).toNat ∧ (ptr' + 4#32).toNat + 8 ≤ hi
    bv_omega
  | length =>
    change lo ≤ (ptr' + 12#32).toNat ∧ (ptr' + 12#32).toNat + 8 ≤ hi
    bv_omega
  | type =>
    change lo ≤ (ptr' + 20#32).toNat ∧ (ptr' + 20#32).toNat + 4 ≤ hi
    bv_omega

/-- One turn reads fields of its own entry. -/
theorem fst_of_mem_entryReads {r : U32 × MapField} (hr : r ∈ entryReads m ptr) : r.1 = ptr := by
  unfold entryReads at hr
  split_ifs at hr with htype
  · simp only [List.cons_append, List.nil_append, List.mem_cons, List.not_mem_nil, or_false] at hr
    rcases hr with rfl | rfl | rfl | rfl | rfl <;> rfl
  · simp only [List.cons_append, List.nil_append, List.mem_cons, List.not_mem_nil, or_false] at hr
    rcases hr with rfl | rfl <;> rfl

/-- On whole entries the pointer moves on by at least 24 bytes, so the walk ends, and it reads
inside. -/
theorem WholeEntries.walk (h : WholeEntries m stop ptr) (turns : ℕ)
    (hturns : stop.toNat - ptr.toNat < 24 * turns) (hlo : lo ≤ ptr.toNat) (hhi : stop.toNat ≤ hi) :
    (∃ es, mapEntries m stop turns ptr = some es) ∧
      ∃ reads, mapReads m stop turns ptr = some reads ∧ ∀ r ∈ reads, ReadInside lo hi r := by
  induction turns generalizing ptr with
  | zero => exact absurd hturns (Nat.not_lt_zero _)
  | succ turns ih =>
    unfold mapEntries mapReads
    by_cases hlt : ptr < stop
    · have hfirst := h ptr (.first hlt)
      have hsize := hfirst.1
      have hend := hfirst.2
      have hnext : (nextEntry m ptr).toNat = ptr.toNat + ((m.load32 ptr).toNat + 4) := by
        have hmax := stop.isLt
        unfold nextEntry
        bv_omega
      obtain ⟨⟨es, hes⟩, reads, hreads, hinside⟩ := ih
        (fun q hq => h q (hq.cons hlt)) (by omega) (by omega)
      unfold nextEntry at hes hreads
      rw [if_pos hlt, if_pos hlt, hes, hreads]
      refine ⟨⟨_, rfl⟩, _, rfl, fun r hr => ?_⟩
      rcases List.mem_append.mp hr with hr | hr
      · exact hfirst.readInside hlo hhi r (fst_of_mem_entryReads hr)
      · exact hinside r hr
    · rw [if_neg hlt, if_neg hlt]
      exact ⟨⟨_, rfl⟩, _, rfl, List.forall_mem_nil _⟩

end

/-- On every map that is a sequence of whole entries the walk of `pmm_init` ends, with one turn for
each 24 bytes at most, and every field that it reads lies inside the map. -/
theorem walkMemoryMap_inside {m : Memory} {mmapAddr mmapLength : U32}
    (h : WholeEntries m (mmapAddr + mmapLength) mmapAddr) :
    (∀ p, ∃ p', walkMemoryMap m (mmapAddr + mmapLength) (mmapLength.toNat / 24 + 1) mmapAddr p =
      some p') ∧
    ∃ reads, mapReads m (mmapAddr + mmapLength) (mmapLength.toNat / 24 + 1) mmapAddr =
        some reads ∧
      ∀ r ∈ reads, ReadInside mmapAddr.toNat (mmapAddr.toNat + mmapLength.toNat) r := by
  have hstop : (mmapAddr + mmapLength).toNat ≤ mmapAddr.toNat + mmapLength.toNat := by
    rw [BitVec.toNat_add]
    exact Nat.mod_le _ _
  obtain ⟨⟨es, hes⟩, hreads⟩ :=
    h.walk (mmapLength.toNat / 24 + 1) (by omega) le_rfl hstop
  refine ⟨fun p => ⟨es.foldl (fun p e => e.release p) p, ?_⟩, hreads⟩
  rw [walkMemoryMap_eq, hes, Option.map_some]

/-- The map of `oneRegion` is one whole entry of 24 bytes. -/
theorem oneRegion_inside : ∃ p' reads,
    walkMemoryMap oneRegion (0x2000#32 + 24#32) 2 0x2000#32 ⟨fun _ => 0#8, 0#32⟩ = some p' ∧
      mapReads oneRegion (0x2000#32 + 24#32) 2 0x2000#32 = some reads := by
  have hend : ¬ nextEntry oneRegion 0x2000#32 < 0x2000#32 + 24#32 := by decide
  have hwhole : WholeEntries oneRegion (0x2000#32 + 24#32) 0x2000#32 := by
    intro ptr hptr
    obtain rfl : ptr = 0x2000#32 := by
      induction hptr with
      | first => rfl
      | next _ hlt ih => exact absurd (ih ▸ hlt) hend
    exact ⟨by decide, by decide⟩
  obtain ⟨hwalk, reads, hreads, -⟩ := walkMemoryMap_inside hwhole
  obtain ⟨p', hp'⟩ := hwalk ⟨fun _ => 0#8, 0#32⟩
  exact ⟨p', reads, hp', hreads⟩

/-- The size of the first entry of `endlessMap` leads back to it. -/
def endlessMap : Memory := (⟨fun _ => 0#8⟩ : Memory).store32 0x2000#32 0xFFFFFFFC#32

/-- The walk over `endlessMap` does not end, and where the map of `oneRegion` is said to be 4 bytes
shorter it reads the type of its entry behind the map. -/
theorem walk_not_inside :
    (¬ ∃ turns p',
      walkMemoryMap endlessMap (0x2000#32 + 24#32) turns 0x2000#32 ⟨fun _ => 0#8, 0#32⟩ =
      some p') ∧
    ∃ reads, mapReads oneRegion (0x2000#32 + 20#32) 2 0x2000#32 = some reads ∧
      ∃ r ∈ reads, ¬ ReadInside 0x2000 0x2014 r := by
  constructor
  · rintro ⟨turns, p', hwalk⟩
    rw [walkMemoryMap_eq] at hwalk
    have hstay : 0x2000#32 + (endlessMap.load32 0x2000#32 + 4#32) = 0x2000#32 := by decide
    have hnone : mapEntries endlessMap (0x2000#32 + 24#32) turns 0x2000#32 = none := by
      clear hwalk
      induction turns with
      | zero => rfl
      | succ turns ih => rw [mapEntries, if_pos (by decide), hstay, ih, Option.map_none]
    rw [hnone] at hwalk
    cases hwalk
  · refine ⟨_, rfl, (0x2000#32, .type), ?_, ?_⟩
    · exact .head _
    · decide

end AlderKernel.Mm
