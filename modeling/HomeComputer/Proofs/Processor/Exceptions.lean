/-
Exceptions are precise.

When a step ends in an exception, the handler finds the computer as it was before the
instruction: the registers, every control register but those that record the trap, and
memory, of which only the instruction itself was read.  `Precise` lists what the handler
finds, and `step_precise` proves it of every hart, every choice of instruction sets and
every bus.

The bus is seen through a transcript, so what the instruction asked of it is a list that
can be compared: one read, at the address of the instruction rounded down to a word.
The rest is read off the second case of `Hart.step_cases`.
-/
import HomeComputer.Memory.Transcript
import HomeComputer.Memory.WordMemory
import HomeComputer.Proofs.Processor.Step
import Mathlib.Algebra.Ring.Nat

namespace HomeComputer

namespace Hart

/-- `after` is `before` brought into the handler of the exception `e`, which the
instruction word `raw` raised, with nothing else changed. -/
structure Precise (before : Hart) (raw : Word) (e : Exception) (after : Hart) : Prop where
  /-- No register was written. -/
  registers : ∀ r : Reg, after.registers.get r = before.registers.get r
  /-- The handler runs next. -/
  pc : after.pc = before.csr.mtvec &&& ~~~3#32
  /-- The handler can tell where the instruction was. -/
  mepc : after.csr.mepc = before.pc
  /-- An illegal instruction is recorded itself. -/
  illegalInstruction : e = .illegalInstruction → after.csr.mcause = 2#32 ∧ after.csr.mtval = raw
  /-- A breakpoint is recorded by its address. -/
  breakpoint : e = .breakpoint → after.csr.mcause = 3#32 ∧ after.csr.mtval = before.pc
  /-- An environment call tells nothing besides. -/
  environmentCall : e = .environmentCall → after.csr.mcause = 11#32 ∧ after.csr.mtval = 0#32
  /-- Whether interrupts were taken is kept for the return. -/
  mpie : after.csr.mstatus.mpie = before.csr.mstatus.mie
  /-- The handler is not interrupted. -/
  masked : after.csr.mstatus.mie = false
  mie : after.csr.mie = before.csr.mie
  mip : after.csr.mip = before.csr.mip
  mtvec : after.csr.mtvec = before.csr.mtvec
  mscratch : after.csr.mscratch = before.csr.mscratch
  /-- The instruction did not complete. -/
  instret : after.csr.instret = before.csr.instret
  /-- It took a cycle all the same. -/
  cycle : after.csr.cycle.toNat = (before.csr.cycle.toNat + 1) % 2 ^ 64
  trap : after.trap = .exception e
  isa : after.isa = before.isa

/-- Entering the trap of an exception, a cycle later, is all that `Precise` allows. -/
theorem precise_takeTrap (h : Hart) (raw : Word) (e : Exception) :
    h.Precise raw e ({ h with csr := countCycle h.csr, trap := .none }.takeTrap (.exception e) h.pc
      (trapValue raw h.pc e)) where
  registers _ := rfl
  pc := rfl
  mepc := rfl
  illegalInstruction := by rintro rfl; exact ⟨rfl, rfl⟩
  breakpoint := by rintro rfl; exact ⟨rfl, rfl⟩
  environmentCall := by rintro rfl; exact ⟨rfl, rfl⟩
  mpie := rfl
  masked := rfl
  mie := rfl
  mip := rfl
  mtvec := rfl
  mscratch := rfl
  instret := rfl
  cycle := by simp [takeTrap, Trap.cause?, countCycle, CsrFile.enterTrap, BitVec.toNat_add]
  trap := rfl
  isa := rfl

/-- **A step that ends in an exception leaves no trace but the trap.** -/
theorem step_precise {β : Type} [Bus β] (h : Hart) (bus : Transcript β) (e : Exception)
    (he : (h.step bus).1.trap = .exception e) :
    h.Precise ((Bus.read bus.bus (h.pc &&& ~~~3#32)).1.getD 0#32) e (h.step bus).1 ∧
      (h.step bus).2.log = bus.log ++ [.read (h.pc &&& ~~~3#32)] ∧
      (h.step bus).2.bus = (Bus.read bus.bus (h.pc &&& ~~~3#32)).2 := by
  rcases step_cases h bus with ⟨c, -, hstep⟩ | ⟨e', -, hstep⟩
  · rw [hstep] at he
    exact absurd he (trap_complete_ne_exception c.next e rfl)
  · have hprecise := precise_takeTrap h (Access.fetch bus h.pc).1 e'
    -- The trap recorded is the exception raised, so the two exceptions are one.
    have hee : e' = e := by
      rw [hstep, hprecise.trap] at he
      exact Trap.exception.inj he
    subst hee
    rw [hstep]
    exact ⟨hprecise, rfl, rfl⟩

/-- Writing the read-only `mhartid` reads it first and then fails: `csrrw a0, mhartid, t0`
ends in the trap with `a0` as it was. -/
theorem step_precise_mhartid :
    let h : Hart := { csr := { mtvec := 0x43#32, mstatus := ⟨true, false⟩ } }
    let bus : Transcript WordMemory := { bus := ({} : WordMemory).put 0#32 0xf1429573#32 }
    (h.step bus).1.trap = .exception .illegalInstruction ∧
      (h.step bus).1.csr.mtval = 0xf1429573#32 ∧ (h.step bus).1.pc = 0x40#32 ∧
      (h.step bus).2.log = [.read 0#32] := by
  intro h bus
  have he : (h.step bus).1.trap = .exception .illegalInstruction := by decide +kernel
  obtain ⟨hprecise, hlog, -⟩ := step_precise h bus .illegalInstruction he
  have hraw : (Bus.read bus.bus (h.pc &&& ~~~3#32)).1.getD 0#32 = 0xf1429573#32 := by
    decide +kernel
  exact ⟨he, (hprecise.illegalInstruction rfl).2.trans hraw, hprecise.pc.trans (by decide),
    hlog.trans (by decide)⟩

end Hart

end HomeComputer
