import AlderKernel.Fs.Files

/-!
# What a directory entry says

`set_dir_entry` writes the padded name, the attribute, the first cluster and the size of an entry;
`fill_dirent` and `names_equal` read them back.
-/

namespace AlderKernel.Fs

open Machine

/-- The 11-byte name field of an entry. -/
def nameField (e : DirEntry) : List U8 := (List.range 11).map e.byte

/-- The name field that `copy_padded` makes of a name and an extension. -/
def paddedName (name ext : List U8) : List U8 := copyPadded 8 name ++ copyPadded 3 ext

/-- A name as it is listed: cut off behind `len` characters, and without spaces at its end. -/
def shownName (len : ℕ) (src : List U8) : List U8 :=
  ((cString src).take len).rdropWhile fun c => c = 0x20#8

/-- The characters that go to the name field have no small letter among them. -/
def NoSmallLetter (name ext : List U8) : Prop :=
  ∀ c ∈ (cString name).take 8 ++ (cString ext).take 3, ¬ (0x61#8 ≤ c ∧ c ≤ 0x7A#8)

instance (name ext : List U8) : Decidable (NoSmallLetter name ext) :=
  inferInstanceAs (Decidable (∀ c ∈ _, _))

section

variable {len : ℕ} {src name ext : List U8} {attr : U8} {cluster size : U32} {i : ℕ}

/-- A padded name has the length of its field. -/
@[simp] theorem copyPadded_length : (copyPadded len src).length = len := by
  simp [copyPadded]

/-! ### The bytes of a new entry -/

/-- The name field of a new entry. -/
theorem setDirEntry_name (hi : i < 11) :
    (setDirEntry name ext attr cluster size).byte i = (paddedName name ext).getD i 0#8 := by
  have hlen : (copyPadded 8 name ++ copyPadded 3 ext).length = 11 := by simp
  unfold setDirEntry paddedName
  rw [Buffer.byte_ofList (by omega), List.getD_append _ _ _ _ (by simp; omega),
    List.getD_append _ _ _ _ (by simp; omega), List.getD_append _ _ _ _ (by omega)]

/-- The first 8 bytes of a new entry are the padded name. -/
theorem setDirEntry_field_name (hi : i < 8) :
    (setDirEntry name ext attr cluster size).byte i = (copyPadded 8 name).getD i 0#8 := by
  rw [setDirEntry_name (by omega), paddedName, List.getD_append _ _ _ _ (by simpa using hi)]

/-- The next 3 bytes of a new entry are the padded extension. -/
theorem setDirEntry_field_ext (hi : i < 3) :
    (setDirEntry name ext attr cluster size).byte (8 + i) = (copyPadded 3 ext).getD i 0#8 := by
  rw [setDirEntry_name (by omega), paddedName, List.getD_append_right _ _ _ _ (by simp)]
  simp

/-- The attributes of a new entry. -/
theorem setDirEntry_attr : (setDirEntry name ext attr cluster size).byte 11 = attr := by
  unfold setDirEntry
  rw [Buffer.byte_ofList (by omega), List.getD_append _ _ _ _ (by simp),
    List.getD_append _ _ _ _ (by simp), List.getD_append_right _ _ _ _ (by simp)]
  simp

/-- The bytes of the first cluster and of the size. -/
theorem setDirEntry_numbers (hi : i < 6) : (setDirEntry name ext attr cluster size).byte (26 + i) =
    [byteOf cluster 0, byteOf cluster 1, byteOf size 0, byteOf size 1, byteOf size 2,
      byteOf size 3].getD i 0#8 := by
  unfold setDirEntry
  rw [Buffer.byte_ofList (by omega), List.getD_append_right _ _ _ _ (by simp)]
  simp

/-- The name field of a new entry is the padded name and extension. -/
theorem nameField_setDirEntry :
    nameField (setDirEntry name ext attr cluster size) = paddedName name ext := by
  have hlen : (paddedName name ext).length = 11 := by simp [paddedName]
  apply List.ext_getElem
  · simp [nameField, hlen]
  · intro i hi hi'
    have hbyte : (setDirEntry name ext attr cluster size).byte i = _ :=
      setDirEntry_name (hlen ▸ hi')
    simp [nameField, hbyte, hi']

/-- An entry starts with the first character of its name, or with a space for an empty name. -/
theorem setDirEntry_first : (setDirEntry name ext attr cluster size).byte 0 =
    (cString name).headD 0x20#8 := by
  rw [setDirEntry_name (by omega)]
  unfold paddedName copyPadded
  cases cString name with
  | nil => simp
  | cons c rest => simp

/-- An entry never starts with a zero byte. -/
theorem setDirEntry_first_ne : (setDirEntry name ext attr cluster size).byte 0 ≠ 0#8 := by
  rw [setDirEntry_first]
  cases name with
  | nil => simp [cString]
  | cons c rest =>
    by_cases hzero : c = 0#8
    · simp [cString, hzero]
    · simp [cString, hzero]

/-- An entry starts with the mark of a deleted slot exactly when its name does. -/
theorem setDirEntry_first_deleted :
    (setDirEntry name ext attr cluster size).byte 0 = 0xE5#8 ↔ name.head? = some 0xE5#8 := by
  rw [setDirEntry_first]
  cases name with
  | nil => simp [cString]
  | cons c rest =>
    by_cases hzero : c = 0#8
    · simp [cString, hzero]
    · simp [cString, hzero]

/-! ### Reading an entry -/

/-- `trim_copy` drops the padding. -/
theorem trimCopy_eq {e : DirEntry} {off : ℕ}
    (h : ∀ i < len, e.byte (off + i) = (copyPadded len src).getD i 0#8) :
    trimCopy e off len = shownName len src := by
  have hbytes : (List.range len).map (fun i => e.byte (off + i)) = copyPadded len src := by
    apply List.ext_getElem
    · simp
    · intro i hi hi'
      have hlt : i < len := by simpa using hi
      rw [List.getElem_map, List.getElem_range, h i hlt, List.getD_eq_getElem _ _ hi']
  have hspaces (l : List U8) (n : ℕ) : (l ++ List.replicate n 0x20#8).rdropWhile
      (fun c => c = 0x20#8) = l.rdropWhile fun c => c = 0x20#8 := by
    induction n with
    | zero => simp
    | succ n ih =>
      rw [List.replicate_succ', ← List.append_assoc, List.rdropWhile_concat_pos _ _ _ (by simp), ih]
  unfold trimCopy
  rw [hbytes, copyPadded, hspaces, shownName]

/-- `fill_dirent` reads a new entry back. -/
theorem fillDirent_setDirEntry (hcluster : cluster.toNat < 2 ^ 16) :
    fillDirent (setDirEntry name ext attr cluster size) =
      ⟨shownName 8 name, shownName 3 ext, attr, cluster, size⟩ := by
  have hname : trimCopy (setDirEntry name ext attr cluster size) 0 8 = shownName 8 name :=
    trimCopy_eq fun i hi => by rw [Nat.zero_add, setDirEntry_field_name hi]
  have hext : trimCopy (setDirEntry name ext attr cluster size) 8 3 = shownName 3 ext :=
    trimCopy_eq fun i hi => setDirEntry_field_ext hi
  have hnumber (i : ℕ) (hi : i < 6) : (setDirEntry name ext attr cluster size).byte (26 + i) = _ :=
    setDirEntry_numbers hi
  have hlow : word16 (setDirEntry name ext attr cluster size) 26 = cluster := by
    have hwidth : (cluster.setWidth 16).setWidth 32 = cluster := by
      apply BitVec.eq_of_toNat_eq
      rw [BitVec.toNat_setWidth, BitVec.toNat_setWidth]
      omega
    unfold word16
    rw [hnumber 0 (by omega), hnumber 1 (by omega), ← hwidth]
    unfold byteOf
    ext n hn
    simp
    grind
  have hsize : ((setDirEntry name ext attr cluster size).byte 28).setWidth 32 |||
      ((setDirEntry name ext attr cluster size).byte 29).setWidth 32 <<< 8 |||
      ((setDirEntry name ext attr cluster size).byte 30).setWidth 32 <<< 16 |||
      ((setDirEntry name ext attr cluster size).byte 31).setWidth 32 <<< 24 = size := by
    rw [hnumber 2 (by omega), hnumber 3 (by omega), hnumber 4 (by omega), hnumber 5 (by omega)]
    unfold byteOf
    ext n hn
    simp
    grind
  unfold fillDirent
  rw [hname, hext, setDirEntry_attr, hlow, hsize]

/-- `names_equal` finds a new entry under its own name when there is no small letter in it. -/
theorem namesEqual_setDirEntry :
    namesEqual (setDirEntry name ext attr cluster size) name ext = true ↔
    NoSmallLetter name ext := by
  have hfold (c : U8) : c = foldCase c ↔ ¬ (0x61#8 ≤ c ∧ c ≤ 0x7A#8) := by
    unfold foldCase
    split_ifs with hsmall
    · refine iff_of_false (fun heq => ?_) (not_not_intro hsmall)
      bv_omega
    · exact iff_of_true rfl hsmall
  have hpart (len : ℕ) (src : List U8) : (∀ i < len, (copyPadded len src).getD i 0#8 =
      foldCase ((copyPadded len src).getD i 0#8)) ↔
        ∀ c ∈ (cString src).take len, ¬ (0x61#8 ≤ c ∧ c ≤ 0x7A#8) := by
    have hall : (∀ c ∈ copyPadded len src, ¬ (0x61#8 ≤ c ∧ c ≤ 0x7A#8)) ↔
        ∀ c ∈ (cString src).take len, ¬ (0x61#8 ≤ c ∧ c ≤ 0x7A#8) := by
      unfold copyPadded
      rw [List.forall_mem_append, and_iff_left]
      intro c hc
      rw [List.eq_of_mem_replicate hc]
      decide
    rw [← hall, List.forall_mem_iff_getElem]
    constructor
    · intro h i hi
      have hi' : i < len := by simpa using hi
      have heq := (hfold _).mp (h i hi')
      rwa [List.getD_eq_getElem _ _ hi] at heq
    · intro h i hi
      have hi' : i < (copyPadded len src).length := by simpa using hi
      rw [List.getD_eq_getElem _ _ hi']
      exact (hfold _).mpr (h i hi')
  unfold namesEqual NoSmallLetter
  rw [List.forall_mem_append, ← hpart, ← hpart, Bool.and_eq_true, List.all_eq_true,
    List.all_eq_true]
  refine and_congr (forall_congr' fun i => ?_) (forall_congr' fun i => ?_)
  · rw [List.mem_range, beq_iff_eq]
    exact imp_congr_right fun hi => by rw [setDirEntry_field_name hi]
  · rw [List.mem_range, beq_iff_eq]
    exact imp_congr_right fun hi => by rw [setDirEntry_field_ext hi]

end

end AlderKernel.Fs
