import AlderKernel.Drivers.ShiftKeys

/-!
# The Caps Lock key

Every byte for Caps Lock going down toggles the flag. A key that is held sends that byte again and
again, so the flag is the parity of the presses only where the auto-repeats come out even.
-/

namespace AlderKernel.Drivers

open Machine

/-- `SCANCODE_CAPSLOCK`. -/
def capsLock : Key := ⟨false, 0x3A#7, by decide⟩

/-- How often Caps Lock does something in a sequence of events. -/
def capsLockCount (motion : Motion) (acts : List KeyAction) : ℕ := acts.count ⟨capsLock, motion⟩

/-- After these events `capslock_on` is the parity of the presses of Caps Lock. -/
def TracksCapsLock (s : Keyboard) (acts : List KeyAction) : Prop :=
  (delivered acts s).modifiers.capslockOn = true ↔ Odd (capsLockCount .press acts)

section

variable {s : Keyboard} {act : KeyAction}

/-- What the handler makes of a byte of a key for the flag. -/
theorem handleScancode_capslock (code : BitVec 7) (hne : code ≠ 0x60#7) (release : Bool)
    (m : Modifiers) :
    (handleScancode (if release then code.setWidth 8 ||| 0x80#8 else code.setWidth 8)
        m).1.capslockOn =
      if m.extendedPrefix = false ∧ code = 0x3A#7 ∧ release = false then !m.capslockOn
      else m.capslockOn := by
  obtain ⟨hext, hcode, hrelease, -⟩ := scancode_spec code hne release
  have hcaps : code.setWidth 8 = 0x3A#8 ↔ code = 0x3A#7 := by decide +revert
  have hshift : code = 0x3A#7 → ¬ (code.setWidth 8 = 0x2A#8 ∨ code.setWidth 8 = 0x36#8) := by
    decide +revert
  generalize (if release then code.setWidth 8 ||| 0x80#8 else code.setWidth 8) = scancode at *
  unfold handleScancode
  simp only [if_neg hext, hcode, hrelease, hcaps]
  cases m.extendedPrefix with
  | true =>
    simp only [if_true, Bool.true_eq_false, false_and, if_false]
    split_ifs <;> rfl
  | false =>
    simp only [Bool.false_eq_true, if_false, true_and]
    split_ifs <;> simp_all

/-- The code of Caps Lock. -/
theorem isCapsLock_iff (k : Key) : k = capsLock ↔ k.extended = false ∧ k.code = 0x3A#7 := by
  obtain ⟨extended, code, hne⟩ := k
  simp [capsLock]

/-- An event toggles the flag when it is a make code of Caps Lock. -/
theorem deliver_capslock (act : KeyAction) (hfront : s.modifiers.extendedPrefix = false) :
    (act.deliver s).modifiers.capslockOn =
      if act.key = capsLock ∧ act.motion ≠ .release then !s.modifiers.capslockOn
      else s.modifiers.capslockOn := by
  have hkey := handleScancode_capslock act.key.code act.key.code_ne
    (decide (act.motion = .release)) { s.modifiers with extendedPrefix := act.key.extended }
  simp only [decide_eq_true_eq, decide_eq_false_iff_not, ← and_assoc] at hkey
  rw [deliver_eq act hfront]
  simp only [isCapsLock_iff]
  exact hkey

/-- After a sequence of events the flag is the parity of all make codes of Caps Lock. -/
theorem delivered_capslock (hs : s.modifiers = .initial) (acts : List KeyAction) :
    (delivered acts s).modifiers.capslockOn = true ↔
      Odd (capsLockCount .press acts + capsLockCount .autoRepeat acts) := by
  induction acts using List.reverseRecOn with
  | nil => simp [delivered, hs, Modifiers.initial, capsLockCount]
  | append_singleton acts act ih =>
    have hready := delivered_ready acts (s := s) (by simp [hs, Modifiers.initial])
    rw [delivered_concat, deliver_capslock act hready]
    simp only [capsLockCount, List.count_append, List.count_singleton, beq_iff_eq] at ih ⊢
    obtain ⟨key, motion⟩ := act
    by_cases hkey : key = capsLock
    · subst hkey
      cases motion with
      | press =>
        have hsum : acts.count ⟨capsLock, .press⟩ + 1 + acts.count ⟨capsLock, .autoRepeat⟩ =
          acts.count ⟨capsLock, .press⟩ + acts.count ⟨capsLock, .autoRepeat⟩ + 1 := by omega
        simp [hsum, Nat.odd_add_one, ← ih]
      | autoRepeat => simp [← Nat.add_assoc, Nat.odd_add_one, ← ih]
      | release => simpa using ih
    · simpa [hkey] using ih

/-- Caps Lock toggles once per press. From the boot on, for every sequence of events of any keys,
`capslock_on` is the parity of the presses of Caps Lock if and only if its auto-repeats are even in
number. -/
theorem capsLock_tracked_iff (hs : s.modifiers = .initial) (acts : List KeyAction) :
    TracksCapsLock s acts ↔ Even (capsLockCount .autoRepeat acts) := by
  unfold TracksCapsLock
  rw [delivered_capslock hs, Nat.odd_add]
  tauto

/-- Caps Lock pressed twice, the second time held until it repeats twice, is tracked. -/
theorem capsLock_twice_tracked : TracksCapsLock .initial
    [⟨capsLock, .press⟩, ⟨capsLock, .release⟩, ⟨capsLock, .press⟩, ⟨capsLock, .autoRepeat⟩,
      ⟨capsLock, .autoRepeat⟩, ⟨capsLock, .release⟩] :=
  (capsLock_tracked_iff rfl _).mpr (by decide)

/-- Caps Lock that is held until its make code comes once more is off again. -/
theorem capsLock_held_not_tracked :
    ¬ TracksCapsLock .initial [⟨capsLock, .press⟩, ⟨capsLock, .autoRepeat⟩] := by
  have hoff :
      (delivered [⟨capsLock, .press⟩, ⟨capsLock, .autoRepeat⟩] .initial).modifiers.capslockOn
      = false := by
    decide
  have hodd : Odd (capsLockCount .press [⟨capsLock, .press⟩, ⟨capsLock, .autoRepeat⟩]) := by
    decide
  intro htracks
  rw [TracksCapsLock, hoff] at htracks
  exact Bool.false_ne_true (htracks.mpr hodd)

end

end AlderKernel.Drivers
