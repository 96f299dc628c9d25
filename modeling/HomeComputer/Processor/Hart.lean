/-
The hart.

`Hart.step` runs one instruction: fetch, decode, execute, and then either go on at
the next address, take an interrupt that has become due, or enter the trap of the
exception that was raised.  It never fails; whatever the guest does wrong becomes a
trap, and `trap` says which one the last step ended with.

The cycle counter advances after the instruction has run, so an instruction that
reads it sees the count before its own step and one that writes it is counted on top.
-/
import HomeComputer.Processor.Execute

namespace HomeComputer

/-- One hardware thread. -/
structure Hart where
  pc : Word := 0#32
  registers : Registers := {}
  csr : CsrFile := {}
  trap : Trap := .none
  /-- The instruction sets, in the order they are asked. -/
  isa : List Extension := Extension.full
  deriving DecidableEq

namespace Hart

/-- What a word does on this hart. -/
def decode? (h : Hart) (w : Word) : Option Decoded := Extension.decodeBy h.isa w

/-- The hart fitted with one more instruction set, asked last. -/
def addExtension (h : Hart) (e : Extension) : Hart := { h with isa := h.isa ++ [e] }

/-- The hart with an interrupt line raised or cleared. -/
@[inline] def setPending (h : Hart) (line : Byte) (level : Bool) : Hart :=
  { h with csr := h.csr.setPending line level }

/-- What an exception has to tell besides its cause. -/
def trapValue (raw pc : Word) : Exception → Word
  | .illegalInstruction => raw
  | .breakpoint => pc
  | .environmentCall => 0#32

/-- The hart in the handler of a trap. -/
def takeTrap (h : Hart) (t : Trap) (epc tval : Word) : Hart :=
  match t.cause? with
  | none => h
  | some cause =>
      let (pc, csr) := h.csr.enterTrap cause epc tval
      { h with pc, csr, trap := t }

/-- The hart at `next`, with one more instruction completed. -/
def retire (h : Hart) (next : Word) : Hart :=
  { h with pc := next, csr := { h.csr with instret := h.csr.instret + 1#64 } }

/-- The hart after its instruction completed: at `next`, or in the handler of an interrupt
that is due there. -/
def complete (h : Hart) (next : Word) : Hart :=
  match (h.retire next).csr.pending? with
  | none => h.retire next
  | some line => (h.retire next).takeTrap (.interrupt line) next 0#32

def countCycle (f : CsrFile) : CsrFile := { f with cycle := f.cycle + 1#64 }

/-- What the fetched word does, from the hart's state and a bus.  A word that no set
claims raises an exception before anything is done. -/
def performWord {β : Type} [Bus β] (h : Hart) (raw : Word) (bus : β) : Outcome β :=
  let start := Context.start h.pc h.registers h.csr bus
  match h.decode? raw with
  | none => .raised .illegalInstruction start
  | some d => perform d.operation d.instruction start

/-- The hart with the registers of a context, after a cycle in which nothing trapped yet. -/
def adopt {β : Type} (h : Hart) (c : Context β) : Hart :=
  { h with registers := c.registers, csr := countCycle c.csr, trap := .none }

def step {β : Type} [Bus β] (h : Hart) (bus : β) : Hart × β :=
  let (raw, bus) := Access.fetch bus h.pc
  match h.performWord raw bus with
  | .completed c => ((h.adopt c).complete c.next, c.bus)
  | .raised e c => ((h.adopt c).takeTrap (.exception e) h.pc (trapValue raw h.pc e), c.bus)

end Hart

end HomeComputer
