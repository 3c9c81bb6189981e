import AlderKernel.Drivers.Ps2

/-!
# The Shift keys

The keyboard reports the keys that go down, repeat and go up. One flag of the driver stands
for both Shift keys, so it agrees with the keys that are down until one of them is released
while the other one is still down.
-/

namespace AlderKernel.Drivers

open Machine

/-- A key of scancode set 1, by its code and whether it has the prefix `0xE0`. No key has the code
whose release would be that prefix. -/
structure Key where
  extended : Bool
  code : BitVec 7
  code_ne : code ≠ 0x60#7
  deriving DecidableEq

/-- `SCANCODE_LSHIFT`. -/
def leftShift : Key := ⟨false, 0x2A#7, by decide⟩

/-- `SCANCODE_RSHIFT`. -/
def rightShift : Key := ⟨false, 0x36#7, by decide⟩

/-- What a key does. -/
inductive Motion where
  | press
  | autoRepeat
  | release
  deriving DecidableEq

/-- An event of the keyboard. -/
structure KeyAction where
  key : Key
  motion : Motion
  deriving DecidableEq

/-- The bytes that the keyboard sends for an event. -/
def KeyAction.scancodes (act : KeyAction) : List U8 :=
  let code := act.key.code.setWidth 8
  (if act.key.extended then [0xE0#8] else []) ++
    [if act.motion = .release then code ||| 0x80#8 else code]

/-- The keys that are down after an event. -/
def KeyAction.down (act : KeyAction) (keys : Set Key) : Set Key :=
  if act.motion = .release then keys \ {act.key} else insert act.key keys

/-- `keyboard_handler` for each byte of an event. -/
def KeyAction.deliver (act : KeyAction) (s : Keyboard) : Keyboard :=
  act.scancodes.foldl (fun s scancode => keyboardHandler scancode s) s

/-- One of the Shift keys is released while the other one is down. -/
def KeyAction.ReleasesUnderOther (act : KeyAction) (keys : Set Key) : Prop :=
  act.motion = .release ∧
    (act.key = leftShift ∧ rightShift ∈ keys ∨ act.key = rightShift ∧ leftShift ∈ keys)

/-- The driver at boot. -/
def Keyboard.initial : Keyboard := ⟨.initial, .empty⟩

/-- The driver after a sequence of events. -/
def delivered (acts : List KeyAction) (s : Keyboard) : Keyboard :=
  acts.foldl (fun s act => act.deliver s) s

/-- The keys that are down after a sequence of events. -/
def keysDown (acts : List KeyAction) : Set Key :=
  acts.foldl (fun keys act => act.down keys) ∅

/-- After these events `shift_held` is nonzero exactly when one of the Shift keys is down. -/
def TracksShift (s : Keyboard) (acts : List KeyAction) : Prop :=
  (delivered acts s).modifiers.shiftHeld = true ↔
    leftShift ∈ keysDown acts ∨ rightShift ∈ keysDown acts

section

variable {s : Keyboard} {act : KeyAction} {acts : List KeyAction}

/-- The keyboard after one more action. -/
theorem delivered_concat (acts : List KeyAction) (act : KeyAction) (s : Keyboard) :
    delivered (acts ++ [act]) s = act.deliver (delivered acts s) := by
  simp [delivered]

/-- The keys that are down after one more action. -/
theorem keysDown_concat (acts : List KeyAction) (act : KeyAction) :
    keysDown (acts ++ [act]) = act.down (keysDown acts) := by
  simp [keysDown]

/-- The byte of a code and what the handler makes of it. -/
theorem scancode_spec (code : BitVec 7) (hne : code ≠ 0x60#7) (release : Bool) :
    let scancode := if release then code.setWidth 8 ||| 0x80#8 else code.setWidth 8
    scancode ≠ 0xE0#8 ∧ scancode &&& 0x7F#8 = code.setWidth 8 ∧
      (scancode &&& 0x80#8 ≠ 0#8 ↔ release = true) ∧
      (code.setWidth 8 = 0x2A#8 ∨ code.setWidth 8 = 0x36#8 ↔ code = 0x2A#7 ∨ code = 0x36#7) := by
  decide +revert

/-- A byte of a key, with or without the prefix in front of it. -/
theorem handleScancode_key (code : BitVec 7) (hne : code ≠ 0x60#7) (release : Bool)
    (m : Modifiers) :
    let r := (handleScancode (if release then code.setWidth 8 ||| 0x80#8 else code.setWidth 8) m).1
    r.extendedPrefix = false ∧ r.shiftHeld =
      if m.extendedPrefix = false ∧ (code = 0x2A#7 ∨ code = 0x36#7) then !release
      else m.shiftHeld := by
  obtain ⟨hext, hcode, hrelease, hshift⟩ := scancode_spec code hne release
  generalize (if release then code.setWidth 8 ||| 0x80#8 else code.setWidth 8) = scancode at *
  unfold handleScancode
  simp only [if_neg hext, hcode, hrelease, ← hshift]
  cases m.extendedPrefix with
  | true =>
    simp only [if_true, Bool.true_eq_false, false_and, if_false]
    split_ifs <;> simp
  | false =>
    simp only [Bool.false_eq_true, if_false, true_and]
    split_ifs <;> simp_all

/-- The codes of the Shift keys. -/
theorem isShift_iff (k : Key) : k = leftShift ∨ k = rightShift ↔
    k.extended = false ∧ (k.code = 0x2A#7 ∨ k.code = 0x36#7) := by
  obtain ⟨extended, code, hne⟩ := k
  simp [leftShift, rightShift]
  grind

/-- The prefix is remembered for the next byte. -/
theorem handleScancode_extended (m : Modifiers) :
    handleScancode 0xE0#8 m = ({ m with extendedPrefix := true }, none) := by
  simp [handleScancode]

/-- What counts of an event is the byte of its key, which is handled behind the prefix of the
key. -/
theorem deliver_eq (act : KeyAction) (hfront : s.modifiers.extendedPrefix = false) :
    (act.deliver s).modifiers =
      (handleScancode
        (if act.motion = .release then act.key.code.setWidth 8 ||| 0x80#8
          else act.key.code.setWidth 8)
        { s.modifiers with extendedPrefix := act.key.extended }).1 := by
  obtain ⟨⟨extended, code, hne⟩, motion⟩ := act
  cases extended with
  | true =>
    simp [KeyAction.deliver, KeyAction.scancodes, keyboardHandler, handleScancode_extended]
  | false =>
    have hsame : { s.modifiers with extendedPrefix := false } = s.modifiers := by
      rw [← hfront]
    simp [KeyAction.deliver, KeyAction.scancodes, keyboardHandler, hsame]

/-- An event leaves no prefix behind, and sets the flag when its key is a Shift key. -/
theorem deliver_modifiers (act : KeyAction) (hfront : s.modifiers.extendedPrefix = false) :
    (act.deliver s).modifiers.extendedPrefix = false ∧
      (act.deliver s).modifiers.shiftHeld =
        if act.key = leftShift ∨ act.key = rightShift then !decide (act.motion = .release)
        else s.modifiers.shiftHeld := by
  have hkey := handleScancode_key act.key.code act.key.code_ne (decide (act.motion = .release))
    { s.modifiers with extendedPrefix := act.key.extended }
  simp only [decide_eq_true_eq] at hkey
  rw [deliver_eq act hfront]
  simp only [isShift_iff]
  exact hkey

/-- Between two events no prefix is pending. -/
theorem delivered_ready (acts : List KeyAction) (hfront : s.modifiers.extendedPrefix = false) :
    (delivered acts s).modifiers.extendedPrefix = false := by
  induction acts using List.reverseRecOn with
  | nil => exact hfront
  | append_singleton acts act ih =>
    rw [delivered_concat]
    exact (deliver_modifiers act ih).1

/-- What an event does to the agreement of the flag with the keys. -/
theorem tracksShift_concat (hs : s.modifiers = .initial) (act : KeyAction)
    (h : TracksShift s acts) :
    TracksShift s (acts ++ [act]) ↔ ¬ act.ReleasesUnderOther (keysDown acts) := by
  have hready := delivered_ready acts (s := s) (by simp [hs, Modifiers.initial])
  have hflag := (deliver_modifiers act hready).2
  have hne : leftShift ≠ rightShift := by decide
  unfold TracksShift KeyAction.ReleasesUnderOther at *
  rw [delivered_concat, keysDown_concat, hflag]
  unfold KeyAction.down
  by_cases hrelease : act.motion = .release
  · by_cases hleft : act.key = leftShift
    · simp [hrelease, hleft, hne, hne.symm]
    · by_cases hright : act.key = rightShift
      · simp [hrelease, hright, hne, hne.symm]
      · simp [hrelease, hleft, hright, h, Ne.symm hleft, Ne.symm hright]
  · by_cases hkey : act.key = leftShift ∨ act.key = rightShift
    · simp [hrelease, hkey]
      grind
    · simp [hrelease, hkey, h]
      grind

/-- Shift is tracked as held. From the boot on, for every sequence of events of any keys: after each
event `shift_held` is nonzero exactly when one of the Shift keys is down, if and only if no event
releases one of them while the other one is down. -/
theorem shift_tracked_iff (hs : s.modifiers = .initial) (acts : List KeyAction) :
    (∀ before, before <+: acts → TracksShift s before) ↔
      ∀ before act after, acts = before ++ act :: after →
        ¬ act.ReleasesUnderOther (keysDown before) := by
  constructor
  · rintro h before act after rfl
    have hbefore : TracksShift s before := h before (List.prefix_append before (act :: after))
    rw [← tracksShift_concat hs act hbefore]
    apply h
    exact ⟨after, by simp⟩
  · intro h before hbefore
    -- On the events of the prefix, each time the one that came last.
    induction before using List.reverseRecOn with
    | nil => simp [TracksShift, delivered, keysDown, hs, Modifiers.initial]
    | append_singleton before act ih =>
      obtain ⟨after, rfl⟩ := hbefore
      rw [tracksShift_concat hs act (ih ⟨act :: after, by simp⟩)]
      apply h before act after
      simp

/-- The left Shift key goes down and up. -/
theorem leftShift_tracked :
    TracksShift .initial [⟨leftShift, .press⟩, ⟨leftShift, .release⟩] := by
  have hne : leftShift ≠ rightShift := by decide
  apply (shift_tracked_iff (s := .initial) rfl _).mpr _ _ (List.prefix_refl _)
  intro before act after h
  rcases before with _ | ⟨first, before⟩
  · simp only [List.nil_append, List.cons.injEq] at h
    simp [KeyAction.ReleasesUnderOther, ← h.1]
  · simp only [List.cons_append, List.cons.injEq, List.singleton_eq_append_iff] at h
    obtain ⟨rfl, ⟨rfl, h⟩ | ⟨-, h⟩⟩ := h
    · obtain ⟨rfl, rfl⟩ := h
      simp [KeyAction.ReleasesUnderOther, keysDown, KeyAction.down, hne, hne.symm]
    · simp at h

/-- The right Shift key goes down and up while the left one is held. -/
theorem leftShift_lost :
    ¬ TracksShift .initial [⟨leftShift, .press⟩, ⟨rightShift, .press⟩, ⟨rightShift, .release⟩] := by
  have hflag : (delivered [⟨leftShift, .press⟩, ⟨rightShift, .press⟩, ⟨rightShift, .release⟩]
      .initial).modifiers.shiftHeld = false := by decide
  have hne : leftShift ≠ rightShift := by decide
  simp [TracksShift, hflag, keysDown, KeyAction.down, hne]

end

end AlderKernel.Drivers
