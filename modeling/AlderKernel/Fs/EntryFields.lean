import AlderKernel.Fs.Entries

/-!
# Entries and their records

`fill_dirent` into the character arrays of a `fat16_dirent_t`, and `set_dir_entry` from them. What
one of them writes, the other one reads.
-/

namespace AlderKernel.Fs

open Machine

/-- `fat16_dirent_t`, with its character arrays. -/
structure DirentRecord where
  name : Buffer 9
  ext : Buffer 4
  attr : U8
  cluster : U32
  size : U32

/-- The loop of `trim_copy` that looks for the end of the characters. -/
def trimEnd (e : DirEntry) (off : ℕ) : ℕ → ℕ
  | 0 => 0
  | stop + 1 => if e.byte (off + stop) = 0x20#8 then trimEnd e off stop else stop + 1

/-- `trim_copy` into an array. -/
def trimCopyTo {n : ℕ} (dest : Buffer n) (e : DirEntry) (off len : ℕ) : Buffer n :=
  let stop := trimEnd e off len
  (dest.paste 0 (e.slice off stop)).set stop 0#8

/-- `fill_dirent` into a record. -/
def fillDirentRecord (d : DirentRecord) (e : DirEntry) : DirentRecord where
  name := trimCopyTo d.name e 0 8
  ext := trimCopyTo d.ext e 8 3
  attr := e.byte 11
  cluster := word16 e 26
  size := (e.byte 28).setWidth 32 ||| (e.byte 29).setWidth 32 <<< 8 |||
    (e.byte 30).setWidth 32 <<< 16 ||| (e.byte 31).setWidth 32 <<< 24

/-- The bytes of an array. -/
def arrayBytes {n : ℕ} (b : Buffer n) : List U8 := (List.range n).map b.byte

/-- The array holds a string, with its end inside. -/
structure HoldsString {n : ℕ} (b : Buffer n) (s : List U8) : Prop where
  fits : s.length < n
  chars : ∀ i (hi : i < s.length), b.byte i = s[i]
  ends : b.byte s.length = 0#8
  ne_zero : ∀ c ∈ s, c ≠ 0#8

/-- `set_dir_entry` with what a record says. -/
def DirentRecord.entry (d : DirentRecord) : DirEntry :=
  setDirEntry (arrayBytes d.name) (arrayBytes d.ext) d.attr d.cluster d.size

section

variable {n off len i : ℕ} {e : DirEntry} {b : Buffer n} {s name ext : List U8} {attr : U8}
  {cluster size : U32}

/-- The trimmed end lies inside the field. -/
theorem trimEnd_le (e : DirEntry) (off len : ℕ) : trimEnd e off len ≤ len := by
  induction len with
  | zero => exact le_rfl
  | succ len ih =>
    unfold trimEnd
    split_ifs
    · exact Nat.le_succ_of_le ih
    · exact le_rfl

/-- Behind the end there are spaces only. -/
theorem byte_of_trimEnd_le (h : trimEnd e off len ≤ i) (hi : i < len) :
    e.byte (off + i) = 0x20#8 := by
  induction len with
  | zero => exact absurd hi (Nat.not_lt_zero i)
  | succ len ih =>
    unfold trimEnd at h
    split_ifs at h with hspace
    · rcases Nat.lt_succ_iff_lt_or_eq.mp hi with hlt | rfl
      · exact ih h hlt
      · exact hspace
    · omega

/-- What `trim_copy` copies are the characters in front of the end. -/
theorem trimCopy_eq_map (e : DirEntry) (off len : ℕ) :
    trimCopy e off len = (List.range (trimEnd e off len)).map fun i => e.byte (off + i) := by
  induction len with
  | zero => simp [trimCopy, trimEnd]
  | succ len ih =>
    unfold trimCopy at ih ⊢
    rw [List.range_succ, List.map_append, List.map_singleton, List.rdropWhile_concat, trimEnd]
    by_cases hspace : e.byte (off + len) = 0x20#8
    · rw [if_pos (by simpa using hspace), if_pos hspace, ih]
    · rw [if_neg (by simpa using hspace), if_neg hspace, List.range_succ, List.map_append,
        List.map_singleton]

/-- The length of a trimmed field. -/
theorem trimCopy_length (e : DirEntry) (off len : ℕ) :
    (trimCopy e off len).length = trimEnd e off len := by
  rw [trimCopy_eq_map, List.length_map, List.length_range]

/-- `trim_copy` writes the characters and the zero behind them inside of a longer array. -/
theorem trimCopyTo_holds (dest : Buffer n) (hlen : len < n)
    (hzero : ∀ i < len, e.byte (off + i) ≠ 0#8) :
    HoldsString (trimCopyTo dest e off len) (trimCopy e off len) := by
  have hle := trimEnd_le e off len
  refine ⟨by rw [trimCopy_length]; omega, fun i hi => ?_, ?_, fun c hc => ?_⟩
  · have hstop : i < trimEnd e off len := by rwa [trimCopy_length] at hi
    unfold trimCopyTo
    rw [Buffer.byte_set_of_ne (by omega), Buffer.byte_paste (by omega),
      if_pos ⟨Nat.zero_le i, by omega⟩, Nat.sub_zero, Buffer.byte_slice hstop]
    simp only [trimCopy_eq_map, List.getElem_map, List.getElem_range]
  · unfold trimCopyTo
    rw [trimCopy_length, Buffer.byte_set (by omega), if_pos rfl]
  · rw [trimCopy_eq_map] at hc
    obtain ⟨i, hi, rfl⟩ := List.mem_map.mp hc
    exact hzero i (by have := List.mem_range.mp hi; omega)

/-- The bytes of a slice as a list. -/
theorem arrayBytes_slice (b : Buffer n) (off m : ℕ) :
    arrayBytes (b.slice off m) = (List.range m).map fun j => b.byte (off + j) :=
  List.map_congr_left fun _ hj => Buffer.byte_slice (List.mem_range.mp hj)

/-- Characters in an array with a zero behind them are a string. -/
theorem HoldsString.of_arrayBytes {rest : List U8} (h : arrayBytes b = s ++ 0#8 :: rest)
    (hs : ∀ c ∈ s, c ≠ 0#8) : HoldsString b s := by
  have hlen : n = s.length + (rest.length + 1) := by
    simpa [arrayBytes] using congrArg List.length h
  have hbyte (j : ℕ) (hj : j < n) : b.byte j = (s ++ 0#8 :: rest).getD j 0#8 := by
    rw [← h]
    simp [arrayBytes, hj]
  refine ⟨by omega, fun j hj => ?_, ?_, hs⟩
  · rw [hbyte j (by omega), List.getD_append _ _ _ _ hj, List.getD_eq_getElem _ _ hj]
  · rw [hbyte _ (by omega)]
    simp

/-- The string is read up to its end. -/
theorem HoldsString.cString_eq (h : HoldsString b s) : cString (arrayBytes b) = s := by
  have hlen : s.length < (arrayBytes b).length := by simpa [arrayBytes] using h.fits
  have htake : (arrayBytes b).take s.length = s := by
    apply List.ext_getElem
    · rw [List.length_take, Nat.min_eq_left hlen.le]
    · intro i hi hi'
      simpa [arrayBytes] using h.chars i hi'
  have hdrop : (arrayBytes b).drop s.length = 0#8 :: (arrayBytes b).drop (s.length + 1) := by
    rw [List.drop_eq_getElem_cons hlen]
    simpa [arrayBytes] using h.ends
  have hall : ∀ c ∈ s, decide (c ≠ 0#8) = true := fun c hc => decide_eq_true (h.ne_zero c hc)
  have hstop : ((0#8 :: (arrayBytes b).drop (s.length + 1)).takeWhile fun c => c ≠ 0#8) = [] :=
    List.takeWhile_cons_of_neg (by simp)
  rw [cString, ← List.take_append_drop s.length (arrayBytes b), htake, hdrop,
    List.takeWhile_append_of_pos hall, hstop, List.append_nil]

/-- `copy_padded` puts the spaces back that `trim_copy` dropped. -/
theorem copyPadded_trimCopy (h : cString s = trimCopy e off len) (hi : i < len) :
    (copyPadded len s).getD i 0#8 = e.byte (off + i) := by
  have hle := trimEnd_le e off len
  have hcopied : (trimCopy e off len).take len = trimCopy e off len :=
    List.take_of_length_le (by rw [trimCopy_length]; exact hle)
  unfold copyPadded
  rw [h, hcopied]
  by_cases hstop : i < trimEnd e off len
  · have hi' : i < (trimCopy e off len).length := by rwa [trimCopy_length]
    rw [List.getD_append _ _ _ _ hi', List.getD_eq_getElem _ _ hi']
    simp only [trimCopy_eq_map, List.getElem_map, List.getElem_range]
  · rw [List.getD_append_right _ _ _ _ (by rw [trimCopy_length]; omega),
      byte_of_trimEnd_le (by omega) hi, trimCopy_length, List.getD_eq_getElem _ _ (by simp; omega),
      List.getElem_replicate]

/-- The name field of a new entry has no zero byte. -/
theorem setDirEntry_name_ne_zero (hi : i < 11) :
    (setDirEntry name ext attr cluster size).byte i ≠ 0#8 := by
  have hpadded (len : ℕ) (src : List U8) : ∀ c ∈ copyPadded len src, c ≠ 0#8 := by
    intro c hc
    rcases List.mem_append.mp hc with hcopied | hspace
    · have hmem : c ∈ src.takeWhile fun c => c ≠ 0#8 := List.mem_of_mem_take hcopied
      simpa using List.mem_takeWhile_imp hmem
    · rw [List.eq_of_mem_replicate hspace]
      decide
  have hlen : i < (paddedName name ext).length := by simpa [paddedName] using hi
  rw [setDirEntry_name hi, List.getD_eq_getElem _ _ hlen]
  rcases List.mem_append.mp (List.getElem_mem hlen) with hname | hext
  · exact hpadded 8 name _ hname
  · exact hpadded 3 ext _ hext

/-- The record of an entry without zero bytes in its name field holds what `fill_dirent` reads. -/
theorem fillDirentRecord_spec (d : DirentRecord) (hzero : ∀ i < 11, e.byte i ≠ 0#8) :
    HoldsString (fillDirentRecord d e).name (fillDirent e).name ∧
      HoldsString (fillDirentRecord d e).ext (fillDirent e).ext :=
  ⟨trimCopyTo_holds _ (by decide) fun i hi => by rw [Nat.zero_add]; exact hzero i (by omega),
    trimCopyTo_holds _ (by decide) fun i hi => hzero (8 + i) (by omega)⟩

/-- The bytes of a word that is put together from bytes. -/
theorem byteOf_joined (a b c d : U8) (hi : i < 4) :
    byteOf (a.setWidth 32 ||| b.setWidth 32 <<< 8 ||| c.setWidth 32 <<< 16 |||
      d.setWidth 32 <<< 24) i = [a, b, c, d].getD i 0#8 := by
  unfold byteOf
  ext k hk
  interval_cases i <;> simp <;> grind

/-- `set_dir_entry` from the record of an entry gives its name, attribute, cluster and size
again. -/
theorem entry_fillDirentRecord (d : DirentRecord) (hzero : ∀ i < 11, e.byte i ≠ 0#8)
    (hi : i < 12 ∨ 26 ≤ i ∧ i < 32) : (fillDirentRecord d e).entry.byte i = e.byte i := by
  obtain ⟨hname, hext⟩ := fillDirentRecord_spec d hzero
  unfold DirentRecord.entry
  rcases hi with hi | ⟨hlow, hhigh⟩
  · rcases lt_trichotomy i 11 with hlt | rfl | hgt
    · by_cases hshort : i < 8
      · rw [setDirEntry_field_name hshort, copyPadded_trimCopy hname.cString_eq hshort,
          Nat.zero_add]
      · obtain ⟨k, rfl⟩ := Nat.exists_eq_add_of_le (Nat.le_of_not_lt hshort)
        rw [setDirEntry_field_ext (by omega), copyPadded_trimCopy hext.cString_eq (by omega)]
    · exact setDirEntry_attr
    · omega
  · obtain ⟨k, rfl⟩ := Nat.exists_eq_add_of_le hlow
    have hk : k < 6 := by omega
    have hcluster : (fillDirentRecord d e).cluster = (e.byte 26).setWidth 32 |||
        (e.byte 27).setWidth 32 <<< 8 ||| (0#8).setWidth 32 <<< 16 |||
        (0#8).setWidth 32 <<< 24 := by
      simp [fillDirentRecord, word16]
    have hsize : (fillDirentRecord d e).size = (e.byte 28).setWidth 32 |||
        (e.byte 29).setWidth 32 <<< 8 ||| (e.byte 30).setWidth 32 <<< 16 |||
        (e.byte 31).setWidth 32 <<< 24 := rfl
    rw [setDirEntry_numbers hk, hcluster, hsize]
    simp (disch := decide) only [byteOf_joined]
    interval_cases k <;> rfl

/-- Encoding and decoding of directory entries agree. Whatever the record held before, `fill_dirent`
reads from a new entry the first 8 and 3 characters of the name and the extension without trailing
spaces, as strings that end inside the arrays, and the attribute, cluster and size. The other way
round, `set_dir_entry` from the record of any entry without a zero byte in its name field rewrites
the bytes 0 to 11 and 26 to 31 as they were. -/
theorem dirEntry_roundTrip (name ext : List U8) (attr : U8) (cluster size : U32)
    (d d' : DirentRecord) (hcluster : cluster.toNat < 65536) (hzero : ∀ i < 11, e.byte i ≠ 0#8) :
    let r := fillDirentRecord d (setDirEntry name ext attr cluster size)
    (HoldsString r.name (shownName 8 name) ∧ HoldsString r.ext (shownName 3 ext) ∧ r.attr = attr ∧
        r.cluster = cluster ∧ r.size = size) ∧
      ∀ i, i < 12 ∨ 26 ≤ i ∧ i < 32 → (fillDirentRecord d' e).entry.byte i = e.byte i := by
  have hread : fillDirent (setDirEntry name ext attr cluster size) = _ :=
    fillDirent_setDirEntry hcluster
  obtain ⟨hname, hext⟩ := fillDirentRecord_spec (e := setDirEntry name ext attr cluster size) d
    fun i hi => setDirEntry_name_ne_zero hi
  rw [hread] at hname hext
  exact ⟨⟨hname, hext, congrArg Dirent.attr hread, congrArg Dirent.cluster hread,
    congrArg Dirent.size hread⟩, fun i hi => entry_fillDirentRecord d' hzero hi⟩

end

/-- A name with spaces inside and at its end, and an entry that is all spaces. -/
theorem spaces_roundTrip :
    HoldsString (fillDirentRecord ⟨.zero, .zero, 0#8, 0#32, 0#32⟩ <|
        setDirEntry [0x41#8, 0x20#8, 0x42#8, 0x20#8] [] attrFile 5#32 100#32).name
      [0x41#8, 0x20#8, 0x42#8] ∧
    (fillDirentRecord ⟨.zero, .zero, 0#8, 0#32, 0#32⟩ (.ofFn fun _ => 0x20#8)).entry.byte 27 =
      (.ofFn fun _ => 0x20#8 : DirEntry).byte 27 := by
  have hzero (i : ℕ) (hi : i < 11) : (.ofFn fun _ => 0x20#8 : DirEntry).byte i ≠ 0#8 := by
    rw [Buffer.byte_ofFn (by omega)]
    decide
  have hshown : shownName 8 [0x41#8, 0x20#8, 0x42#8, 0x20#8] = [0x41#8, 0x20#8, 0x42#8] := by
    decide
  obtain ⟨⟨hname, -⟩, hbytes⟩ := dirEntry_roundTrip
    [0x41#8, 0x20#8, 0x42#8, 0x20#8] [] attrFile 5#32 100#32 ⟨.zero, .zero, 0#8, 0#32, 0#32⟩
    ⟨.zero, .zero, 0#8, 0#32, 0#32⟩ (by decide) hzero
  exact ⟨hshown ▸ hname, hbytes 27 (.inr ⟨by decide, by decide⟩)⟩

end AlderKernel.Fs
