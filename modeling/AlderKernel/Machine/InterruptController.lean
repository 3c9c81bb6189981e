import AlderKernel.Machine.Memory

/-!
# A pair of 8259A interrupt controllers

The part of the chip that software sees: the initialization words, the mask, the requests, the
requests in service with their priorities, and the nonspecific end of interrupt. The slave is
attached to input 2 of the master. A request stays until the processor acknowledges it.
-/

namespace Machine

/-- The initialization words that follow the first one. -/
inductive InitWord where
  | vectorBase
  | cascade
  | control
  deriving DecidableEq

/-- One controller. -/
structure Pic where
  mask : U8
  request : U8
  inService : U8
  /-- The second initialization word: the vector of input 0. -/
  vectorBase : U8
  /-- The third one. -/
  cascade : U8
  /-- The fourth one. -/
  control : U8
  /-- The initialization words still to come on the data port. -/
  expects : List InitWord
  deriving DecidableEq

namespace Pic

/-- The bit of an input. -/
def lineBit (i : ℕ) : U8 := 1#8 <<< i

/-- The input of highest priority in a set of inputs. -/
def highest (lines : U8) : Option ℕ := (List.range 8).find? fun i => lines.getLsbD i

/-- A write to the command port. Bit 4 marks the first initialization word; of the operation
words only the nonspecific end of interrupt has an effect here. -/
def outCommand (v : U8) (c : Pic) : Pic :=
  if v.getLsbD 4 then
    { c with
      mask := 0#8, request := 0#8, inService := 0#8
      expects := .vectorBase ::
        ((if v.getLsbD 1 then [] else [.cascade]) ++ if v.getLsbD 0 then [.control] else []) }
  else if v = 0x20#8 then
    { c with
      inService := (highest c.inService).elim c.inService fun i => c.inService &&& ~~~lineBit i }
  else c

/-- A write to the data port: the next initialization word, or the mask. -/
def outData (v : U8) (c : Pic) : Pic :=
  match c.expects with
  | .vectorBase :: rest => { c with vectorBase := v &&& 0xF8#8, expects := rest }
  | .cascade :: rest => { c with cascade := v, expects := rest }
  | .control :: rest => { c with control := v, expects := rest }
  | [] => { c with mask := v }

/-- The input for which the controller signals an interrupt: the unmasked request of highest
priority, unless an input of the same or a higher priority is in service. -/
def signalled (c : Pic) : Option ℕ :=
  match highest (c.request &&& ~~~c.mask) with
  | none => none
  | some i => if (highest c.inService).any (· ≤ i) then none else some i

/-- The controller delivers an input: the request is taken into service, unless bit 1 of the
control word makes the end of interrupt automatic. -/
def take (i : ℕ) (c : Pic) : Pic :=
  { c with
    request := c.request &&& ~~~lineBit i
    inService := if c.control.getLsbD 1 then c.inService else c.inService ||| lineBit i }

/-- The vector of an input. -/
def vector (i : ℕ) (c : Pic) : ℕ := c.vectorBase.toNat + i

end Pic

/-- Master and slave. -/
structure PicPair where
  master : Pic
  slave : Pic
  deriving DecidableEq

namespace PicPair

/-- `out` to one of the four ports of the pair. -/
def outb (port : U16) (v : U8) (p : PicPair) : PicPair :=
  if port = 0x20#16 then { p with master := p.master.outCommand v }
  else if port = 0x21#16 then { p with master := p.master.outData v }
  else if port = 0xA0#16 then { p with slave := p.slave.outCommand v }
  else if port = 0xA1#16 then { p with slave := p.slave.outData v }
  else p

/-- A device requests an interrupt. Input 2 of the master belongs to the slave. -/
def raise (irq : ℕ) (p : PicPair) : PicPair :=
  if irq = 2 then p
  else if irq < 8 then
    { p with master := { p.master with request := p.master.request ||| Pic.lineBit irq } }
  else { p with slave := { p.slave with request := p.slave.request ||| Pic.lineBit (irq - 8) } }

/-- The master with the signal of the slave at its input 2. -/
def masterInputs (p : PicPair) : Pic :=
  if p.slave.signalled.isSome then
    { p.master with request := p.master.request ||| Pic.lineBit 2 }
  else p.master

/-- The processor acknowledges an interrupt: the vector, when one is signalled. -/
def acknowledge (p : PicPair) : Option (ℕ × PicPair) :=
  match p.masterInputs.signalled with
  | none => none
  | some i =>
    match p.slave.signalled with
    | some j =>
      if i = 2 then
        some (p.slave.vector j, { master := p.masterInputs.take 2, slave := p.slave.take j })
      else some (p.master.vector i, { p with master := p.master.take i })
    | none => some (p.master.vector i, { p with master := p.master.take i })

end PicPair

end Machine
