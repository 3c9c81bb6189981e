import AlderKernel.Drivers.Ps2
import AlderKernel.Order.Ring

/-!
# The key buffer under interrupts

Between any two memory accesses of `key_buffer_pop` any number of keyboard interrupts may come.
The buffer stays a queue: what is popped is what was pushed, in order.
-/

namespace AlderKernel.Drivers

open Machine

/-- The character of an accepted push. -/
def KeyEvent.acceptedChar : KeyEvent → Option U8
  | accepted c => some c
  | _ => none

/-- The character that a pop returned, unless it returned 0. -/
def KeyEvent.returnedChar : KeyEvent → Option U8
  | returned c => if c = 0#8 then none else some c
  | _ => none

/-- The event is one of `key_buffer_push`. -/
def KeyEvent.IsPush (e : KeyEvent) : Prop := ∃ c, e = accepted c ∨ e = dropped c

/-- The characters that were accepted, in order. -/
def acceptedChars (log : List KeyEvent) : List U8 := log.filterMap KeyEvent.acceptedChar

/-- The nonzero characters that were returned, in order. -/
def returnedChars (log : List KeyEvent) : List U8 := log.filterMap KeyEvent.returnedChar

/-- What a push of the interrupt shows. -/
def pushEvents (pushed : Option U8) (k : KeyBuffer) : List KeyEvent :=
  pushed.elim [] fun c => [if k.Full then .dropped c else .accepted c]

/-- The runs of the driver, with what can be seen of them. -/
inductive KeyRun : Keyboard → PopPoint → List KeyEvent → Prop
  | boot : KeyRun ⟨.initial, .empty⟩ .outside []
  | access {s : Keyboard} {pop : PopPoint} {log : List KeyEvent} (h : KeyRun s pop log)
      (headFirst : Bool) :
      KeyRun { s with buffer := (popAccess headFirst s.buffer pop).1 }
        (popAccess headFirst s.buffer pop).2.1 (log ++ (popAccess headFirst s.buffer pop).2.2)
  | interrupt {s : Keyboard} {pop : PopPoint} {log : List KeyEvent} (h : KeyRun s pop log)
      (scancode : U8) :
      KeyRun (keyboardHandler scancode s) pop
        (log ++ pushEvents (handleScancode scancode s.modifiers).2 s.buffer)

/-- The comparison under way read the head when all accepted characters had been returned. -/
def SawEmpty (log : List KeyEvent) : Prop :=
  ∃ before pushes, log = before ++ .readHead :: pushes ∧ (∀ e ∈ pushes, e.IsPush) ∧
    acceptedChars before = returnedChars before

/-- What holds when an event happens: a push is dropped where 255 accepted characters have not been
returned, and 0 is returned where the comparison saw an empty buffer. -/
def KeyEvent.Allowed (before : List KeyEvent) : KeyEvent → Prop
  | dropped _ => (acceptedChars before).length = (returnedChars before).length + 255
  | returned c => c = 0#8 → SawEmpty before
  | _ => True

/-- Every event of a log was allowed when it happened. -/
def AllAllowed (log : List KeyEvent) : Prop :=
  ∀ before e after, log = before ++ e :: after → e.Allowed before

/-- The slots of the buffer hold the queue. -/
def KeyBuffer.Queue (k : KeyBuffer) (q : List U8) : Prop :=
  Ring.Holds 256 (fun i => k.slots (BitVec.ofNat 32 i)) k.tail.toNat k.head.toNat q

/-- The values that `key_buffer_pop` has read are still good. -/
def PopPoint.Good (k : KeyBuffer) (q : List U8) (log : List KeyEvent) : PopPoint → Prop
  | outside => True
  | haveTail tail => tail = k.tail
  | haveHead head => ∃ n ≤ q.length, head.toNat = (k.tail.toNat + n) % 256 ∧ (n = 0 → SawEmpty log)
  | compared => q ≠ []
  | haveIndex tail => tail = k.tail ∧ q ≠ []
  | haveChar c => ∃ rest, q = c :: rest
  | haveNext c tail => (∃ rest, q = c :: rest) ∧ tail = k.tail

/-- The invariant of the driver. -/
structure KeyInv (k : KeyBuffer) (pop : PopPoint) (log : List KeyEvent) (q : List U8) : Prop where
  queue : k.Queue q
  nonzero : ∀ c ∈ q, c ≠ 0#8
  fifo : acceptedChars log = returnedChars log ++ q
  good : pop.Good k q log
  allowed : AllAllowed log

section

variable {k : KeyBuffer} {pop : PopPoint} {log : List KeyEvent} {q : List U8} {c : U8}

/-- The accepted characters of a log with one more event. -/
theorem acceptedChars_concat (log : List KeyEvent) (e : KeyEvent) :
    acceptedChars (log ++ [e]) = acceptedChars log ++ e.acceptedChar.toList := by
  cases e <;> simp [acceptedChars, KeyEvent.acceptedChar]

/-- The returned characters of a log with one more event. -/
theorem returnedChars_concat (log : List KeyEvent) (e : KeyEvent) :
    returnedChars (log ++ [e]) = returnedChars log ++ e.returnedChar.toList := by
  cases h : e.returnedChar <;> simp [returnedChars, h]

/-- A log grows by an event that is allowed. -/
theorem AllAllowed.concat {e : KeyEvent} (h : AllAllowed log) (he : e.Allowed log) :
    AllAllowed (log ++ [e]) := by
  intro before e' after heq
  rcases List.eq_nil_or_concat after with rfl | ⟨after, last, rfl⟩
  · obtain ⟨rfl, he'⟩ := List.append_inj' heq rfl
    obtain rfl := List.singleton_inj.mp he'
    exact he
  · rw [List.concat_eq_append, ← List.cons_append, ← List.append_assoc] at heq
    exact h before e' after (List.append_inj' heq rfl).1

/-- Pushes do not change what the comparison saw. -/
theorem SawEmpty.concat {e : KeyEvent} (h : SawEmpty log) (he : e.IsPush) :
    SawEmpty (log ++ [e]) := by
  obtain ⟨before, pushes, rfl, hpushes, hempty⟩ := h
  refine ⟨before, pushes ++ [e], by simp, fun e' he' => ?_, hempty⟩
  rcases List.mem_append.mp he' with he' | he'
  · exact hpushes e' he'
  · exact List.mem_singleton.mp he' ▸ he

/-- The keyboard handler pushes no 0. -/
theorem handleScancode_ne_zero {scancode : U8} {m : Modifiers}
    (h : (handleScancode scancode m).2 = some c) : c ≠ 0#8 := by
  unfold handleScancode at h
  dsimp only at h
  split_ifs at h with hprefix hextended hrelease hup hdown hshift hcaps hrelease' hchar
  · obtain rfl := Option.some.inj h
    decide
  · obtain rfl := Option.some.inj h
    decide
  · obtain rfl := Option.some.inj h
    exact hchar

/-- An index advances inside the ring. -/
theorem toNat_advance (i : U32) : ((i + 1#32) % keyBufferSize).toNat = (i.toNat + 1) % 256 := by
  have hsize : keyBufferSize.toNat = 256 := rfl
  rw [BitVec.toNat_umod, hsize]
  bv_omega

/-- The test for a full buffer. -/
theorem KeyBuffer.Queue.full_iff (h : k.Queue q) : k.Full ↔ q.length = 255 := by
  have hfull := Ring.Holds.full_iff h
  unfold KeyBuffer.Full
  rw [← BitVec.toNat_inj, toNat_advance, hfull]
  omega

/-- The test for an empty buffer. -/
theorem KeyBuffer.Queue.empty_iff (h : k.Queue q) : k.tail = k.head ↔ q = [] := by
  rw [← BitVec.toNat_inj]
  exact Ring.Holds.empty_iff h

/-- A push into a buffer that is not full appends to the queue. -/
theorem KeyBuffer.Queue.push (h : k.Queue q) (hfull : ¬ k.Full) :
    (keyBufferPush c k).Queue (q ++ [c]) := by
  have hlength := h.length_lt
  have hroom : q.length + 1 < 256 := by
    have hne := mt h.full_iff.mpr hfull
    omega
  unfold KeyBuffer.Queue keyBufferPush
  rw [if_neg hfull]
  dsimp only
  rw [toNat_advance]
  refine Ring.Holds.push h hroom ?_ fun i hi hne => ?_
  · simp
  · have hne' : BitVec.ofNat 32 i ≠ k.head := by
      rintro heq
      rw [← heq, BitVec.toNat_ofNat] at hne
      omega
    simp [hne']

/-- The values that `key_buffer_pop` has read stay good under a push. -/
theorem PopPoint.Good.push {k' : KeyBuffer} {added : List U8} {e : KeyEvent}
    (h : pop.Good k q log) (htail : k'.tail = k.tail) (he : e.IsPush) :
    pop.Good k' (q ++ added) (log ++ [e]) := by
  cases pop with
  | outside => trivial
  | haveTail tail =>
    change tail = k'.tail
    rw [htail]
    exact h
  | haveHead head =>
    obtain ⟨n, hn, hhead, hempty⟩ := h
    refine ⟨n, ?_, ?_, fun hzero => (hempty hzero).concat he⟩
    · rw [List.length_append]
      omega
    · rw [htail]
      exact hhead
  | compared => exact fun hnil => h (List.append_eq_nil_iff.mp hnil).1
  | haveIndex tail =>
    refine ⟨?_, fun hnil => h.2 (List.append_eq_nil_iff.mp hnil).1⟩
    rw [htail]
    exact h.1
  | haveChar c =>
    obtain ⟨rest, rfl⟩ := h
    exact ⟨rest ++ added, rfl⟩
  | haveNext c tail =>
    obtain ⟨⟨rest, rfl⟩, heq⟩ := h
    refine ⟨⟨rest ++ added, rfl⟩, ?_⟩
    rw [htail]
    exact heq

/-- An interrupt keeps the invariant: its character is appended, or dropped because the buffer is
full. -/
theorem KeyInv.push (h : KeyInv k pop log q) (hc : c ≠ 0#8) :
    ∃ q', KeyInv (keyBufferPush c k) pop
      (log ++ [if k.Full then KeyEvent.dropped c else KeyEvent.accepted c]) q' := by
  by_cases hfull : k.Full
  · have hsame : keyBufferPush c k = k := if_pos hfull
    have hlength := h.queue.full_iff.mp hfull
    have hfifo := congrArg List.length h.fifo
    rw [List.length_append, hlength] at hfifo
    rw [if_pos hfull, hsame]
    refine ⟨q, h.queue, h.nonzero, ?_, ?_, h.allowed.concat hfifo⟩
    · rw [acceptedChars_concat, returnedChars_concat]
      simpa [KeyEvent.acceptedChar, KeyEvent.returnedChar] using h.fifo
    · have hgood : pop.Good k (q ++ []) (log ++ [KeyEvent.dropped c]) :=
        h.good.push rfl ⟨c, .inr rfl⟩
      rwa [List.append_nil] at hgood
  · have htail : (keyBufferPush c k).tail = k.tail := by
      unfold keyBufferPush
      rw [if_neg hfull]
    rw [if_neg hfull]
    refine ⟨q ++ [c], h.queue.push hfull, fun c' hc' => ?_, ?_, h.good.push htail ⟨c, .inl rfl⟩,
      h.allowed.concat trivial⟩
    · rcases List.mem_append.mp hc' with hc' | hc'
      · exact h.nonzero c' hc'
      · exact List.mem_singleton.mp hc' ▸ hc
    · rw [acceptedChars_concat, returnedChars_concat, h.fifo]
      simp [KeyEvent.acceptedChar, KeyEvent.returnedChar]

/-- An event that is neither a push nor the return of a character keeps the queue. -/
theorem KeyInv.event {pop' : PopPoint} {e : KeyEvent} (h : KeyInv k pop log q)
    (haccepted : e.acceptedChar = none) (hreturned : e.returnedChar = none)
    (hgood : pop'.Good k q (log ++ [e])) (hallowed : e.Allowed log) :
    KeyInv k pop' (log ++ [e]) q := by
  refine ⟨h.queue, h.nonzero, ?_, hgood, h.allowed.concat hallowed⟩
  rw [acceptedChars_concat, returnedChars_concat, haccepted, hreturned]
  simpa using h.fifo

/-- An access that shows nothing keeps the queue. -/
theorem KeyInv.silent {pop' : PopPoint} (h : KeyInv k pop log q) (hgood : pop'.Good k q log) :
    KeyInv k pop' (log ++ []) q := by
  rw [List.append_nil]
  exact ⟨h.queue, h.nonzero, h.fifo, hgood, h.allowed⟩

/-- Where the head is read while the queue is empty, the comparison sees an empty buffer. -/
theorem KeyInv.sawEmpty (h : KeyInv k pop log []) : SawEmpty (log ++ [KeyEvent.readHead]) := by
  refine ⟨log, [], rfl, by simp, ?_⟩
  simpa using h.fifo

/-- The return of the first character takes it out of the queue. -/
theorem KeyInv.returns {rest : List U8} (h : KeyInv k pop log (c :: rest)) :
    KeyInv { k with tail := (k.tail + 1#32) % keyBufferSize } .outside
      (log ++ [KeyEvent.returned c]) rest := by
  have hc : c ≠ 0#8 := h.nonzero c (.head _)
  refine ⟨?_, fun c' hc' => h.nonzero c' (.tail _ hc'), ?_, trivial,
    h.allowed.concat fun hzero => absurd hzero hc⟩
  · unfold KeyBuffer.Queue
    dsimp only
    rw [toNat_advance]
    exact Ring.Holds.pop h.queue
  · rw [acceptedChars_concat, returnedChars_concat, h.fifo]
    simp [KeyEvent.acceptedChar, KeyEvent.returnedChar, hc]

/-- A memory access of `key_buffer_pop` keeps the invariant. -/
theorem KeyInv.access (h : KeyInv k pop log q) (headFirst : Bool) :
    ∃ q', KeyInv (popAccess headFirst k pop).1 (popAccess headFirst k pop).2.1
      (log ++ (popAccess headFirst k pop).2.2) q' := by
  have hempty := h.queue.empty_iff
  cases pop with
  | outside =>
    cases headFirst with
    | true =>
      refine ⟨q, h.event rfl rfl ⟨q.length, le_rfl, h.queue.head_eq, fun hzero => ?_⟩ trivial⟩
      obtain rfl := List.length_eq_zero_iff.mp hzero
      exact h.sawEmpty
    | false => exact ⟨q, h.silent rfl⟩
  | haveTail tail =>
    obtain rfl : tail = k.tail := h.good
    unfold popAccess
    dsimp only
    split_ifs with heq
    · obtain rfl := hempty.mp heq
      have hread : KeyInv k .outside (log ++ [KeyEvent.readHead]) [] :=
        h.event rfl rfl trivial trivial
      have hreturn : KeyInv k .outside (log ++ [KeyEvent.readHead] ++ [KeyEvent.returned 0#8]) [] :=
        hread.event rfl rfl trivial fun _ => h.sawEmpty
      rw [List.append_assoc] at hreturn
      exact ⟨[], hreturn⟩
    · exact ⟨q, h.event rfl rfl (mt hempty.mpr heq) trivial⟩
  | haveHead head =>
    obtain ⟨n, hn, hhead, hsaw⟩ := h.good
    have hlength := h.queue.length_lt
    have htail := h.queue.tail_lt
    -- The head that was read is `n` slots behind the tail, which has not moved since.
    have hzero : k.tail = head ↔ n = 0 := by
      rw [← BitVec.toNat_inj, hhead]
      omega
    unfold popAccess
    dsimp only
    split_ifs with heq
    · exact ⟨q, h.event rfl rfl trivial fun _ => hsaw (hzero.mp heq)⟩
    · refine ⟨q, h.silent fun hnil => heq (hzero.mpr ?_)⟩
      rw [hnil] at hn
      exact Nat.le_zero.mp hn
  | compared => exact ⟨q, h.silent ⟨rfl, h.good⟩⟩
  | haveIndex tail =>
    obtain ⟨rfl, hne⟩ := h.good
    cases q with
    | nil => exact absurd rfl hne
    | cons c rest =>
      have hfirst := h.queue.first
      rw [BitVec.ofNat_toNat, BitVec.setWidth_eq] at hfirst
      exact ⟨c :: rest, h.silent ⟨rest, by rw [hfirst]⟩⟩
  | haveChar c => exact ⟨q, h.silent ⟨h.good, rfl⟩⟩
  | haveNext c tail =>
    obtain ⟨⟨rest, rfl⟩, rfl⟩ := h.good
    exact ⟨rest, h.returns⟩

/-- The invariant holds in every run. -/
theorem KeyRun.inv {s : Keyboard} (h : KeyRun s pop log) : ∃ q, KeyInv s.buffer pop log q := by
  induction h with
  | boot =>
    refine ⟨[], Ring.holds_nil _ (by decide), by simp, rfl, trivial, fun before e after heq => ?_⟩
    exact absurd heq.symm (by simp)
  | access _ headFirst ih =>
    obtain ⟨q, hinv⟩ := ih
    exact hinv.access headFirst
  | @interrupt s pop log _ scancode ih =>
    obtain ⟨q, hinv⟩ := ih
    unfold keyboardHandler
    dsimp only
    cases hpushed : (handleScancode scancode s.modifiers).2 with
    | none =>
      refine ⟨q, ?_⟩
      change KeyInv s.buffer pop (log ++ []) q
      rwa [List.append_nil]
    | some c => exact hinv.push (handleScancode_ne_zero hpushed)

/-- The key buffer is a lossless bounded queue. In every run, with any interrupts between any two
memory accesses of `key_buffer_pop`: the characters accepted are those returned, in order, followed
by those in the buffer; a push is dropped only where 255 accepted characters have not been released;
and 0 is returned only where the buffer was empty when the comparison read its head. -/
theorem keyBuffer_lossless {s : Keyboard} (h : KeyRun s pop log) :
    ∃ q, s.buffer.Queue q ∧ acceptedChars log = returnedChars log ++ q ∧
      (∀ before c after, log = before ++ .dropped c :: after →
        (acceptedChars before).length = (returnedChars before).length + 255) ∧
      ∀ before after, log = before ++ .returned 0#8 :: after → SawEmpty before := by
  obtain ⟨q, hinv⟩ := h.inv
  exact ⟨q, hinv.queue, hinv.fifo, fun before c after heq => hinv.allowed before _ after heq,
    fun before after heq => hinv.allowed before _ after heq rfl⟩

/-- A key press while an empty buffer is compared: the pop returns 0, and the next one the key. -/
theorem lateKey_lossless : ∃ s pop, KeyRun s pop
      [.readHead, .accepted 97#8, .returned 0#8, .readHead, .returned 97#8] ∧
    ∃ q, s.buffer.Queue q ∧ [97#8] = [97#8] ++ q := by
  have hread := KeyRun.boot.access true
  have hpopped := (hread.interrupt 0x1E#8).access true
  have hrun := (((((hpopped.access false).access false).access false).access false).access
    false).access false
  obtain ⟨q, hqueue, hfifo, -⟩ := keyBuffer_lossless hrun
  exact ⟨_, _, hrun, q, hqueue, hfifo⟩

end

end AlderKernel.Drivers
