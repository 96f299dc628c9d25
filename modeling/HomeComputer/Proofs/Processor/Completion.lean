/-
Instructions that complete.

Most instructions only put a result into a register and go on somewhere; `Completes` says
this of a word, with the result and the address to go on at as integers, and `Executed` says
what a whole step then makes of it.  The step is the same whatever the instruction was: the
hart goes on at the next address, or takes an interrupt that has become due and is to return
there (`executed_of_completes`).
-/
import HomeComputer.Proofs.Isa.Decoding
import HomeComputer.Proofs.Isa.Integers
import HomeComputer.Proofs.Processor.Step

namespace HomeComputer

namespace Hart

variable {β : Type}

/-! ### What a word does -/

/-- The signed value of a register. -/
def signed (h : Hart) (n : Nat) : Int := (h.registers.get (BitVec.ofNat 5 n)).toInt

theorem signed_rs1 (h : Hart) (w : Word) :
    h.signed (Manual.rs1 w) = (h.registers.get w.rs1).toInt := by
  rw [show w.rs1 = BitVec.ofNat 5 (Manual.rs1 w) from Manual.bits_eq rfl]
  rfl

theorem signed_rs2 (h : Hart) (w : Word) :
    h.signed (Manual.rs2 w) = (h.registers.get w.rs2).toInt := by
  rw [show w.rs2 = BitVec.ofNat 5 (Manual.rs2 w) from Manual.bits_eq rfl]
  rfl

/-- The registers with a result in the destination of `w`, if there is a result. -/
def receive (x : Registers) (w : Word) : Option Int → Registers
  | none => x
  | some v => x.set w.rd (BitVec.ofInt 32 v)

/-- The word completes, puts `result` into its destination, goes on at `next`, leaves the bus
as `bus'` and the rest of its context alone. -/
def Completes [Bus β] (h : Hart) (w : Word) (bus : β) (result : Option Int) (next : Int)
    (bus' : β) : Prop :=
  h.performWord w bus = .completed {
    pc := h.pc
    next := BitVec.ofInt 32 next
    registers := receive h.registers w result
    csr := h.csr
    bus := bus' }

section

variable [Bus β] {h : Hart} {w : Word}

/-- A hart performs what any of its sets finds in the word. -/
theorem performWord_of_claims {e : Extension} (he : e ∈ h.isa) {op : Operation}
    (hop : e.operation? w = some op) (bus : β) :
    h.performWord w bus = perform op (Instruction.ofWord op.format w)
      (Context.start h.pc h.registers h.csr bus) := by
  have hd : h.decode? w = some ⟨op, Instruction.ofWord op.format w⟩ :=
    Extension.decodeBy_of_claims he hop
  simp only [performWord, hd]

/-- The instruction in memory after this one. -/
theorem following (pc : Word) : pc + 4#32 = BitVec.ofInt 32 (pc.toNat + 4) :=
  Manual.address_add pc 4#32

end

/-! ### What a step does -/

/-- The control registers with one more cycle and one more instruction completed. -/
def counted (f : CsrFile) : CsrFile :=
  { f with cycle := f.cycle + 1#64, instret := f.instret + 1#64 }

/-- `after` is `before` with the instruction `w` completed, which has the given result and
goes on at `next`; an interrupt that is due comes between the two. -/
structure Executed (before : Hart) (w : Word) (result : Option Int) (next : Int) (after : Hart) :
    Prop where
  /-- The result is in the destination, unless that is register 0. -/
  destination : ∀ v, result = some v → ∀ r : Reg, r.toNat = Manual.rd w → r ≠ 0#5 →
    after.registers.get r = BitVec.ofInt 32 v
  /-- Every other register is as it was. -/
  others : ∀ r : Reg, result = none ∨ r.toNat ≠ Manual.rd w ∨ r = 0#5 →
    after.registers.get r = before.registers.get r
  /-- With no interrupt due the hart goes on. -/
  uninterrupted : before.csr.pending? = none →
    after.trap = .none ∧ after.pc = BitVec.ofInt 32 next ∧ after.csr = counted before.csr
  /-- With one due it is in the handler, which returns to where the hart would have gone on. -/
  interrupted : ∀ line, before.csr.pending? = some line →
    after.trap = .interrupt line ∧ after.pc = before.csr.mtvec &&& ~~~3#32 ∧
    after.csr = { counted before.csr with
      mepc := BitVec.ofInt 32 next
      mcause := 0x80000000#32 ||| line.setWidth 32
      mtval := 0#32
      mstatus := ⟨false, before.csr.mstatus.mie⟩ }
  isa : after.isa = before.isa

theorem get_receive (x : Registers) (w : Word) (v : Int) (r : Reg) :
    (receive x w (some v)).get r =
      if r.toNat = Manual.rd w ∧ r ≠ 0#5 then BitVec.ofInt 32 v else x.get r := by
  have hrd : w.rd = r ↔ r.toNat = Manual.rd w := by
    rw [eq_comm, ← BitVec.toNat_inj]
    exact Eq.congr_right (Manual.toNat_bits w 7 5)
  unfold receive
  rw [Registers.get_set]
  by_cases hr : w.rd = r
  · subst hr
    simp [hrd.mp rfl]
  · simp [hr, mt hrd.mpr hr]

/-- The step of a word that completes. -/
theorem executed_of_completes [Bus β] {h : Hart} {bus bus' : β} {result : Option Int} {next : Int}
    (hc : h.Completes (Access.fetch bus h.pc).1 (Access.fetch bus h.pc).2 result next bus') :
    h.Executed (Access.fetch bus h.pc).1 result next (h.step bus).1 ∧
      (h.step bus).2 = bus' := by
  rcases step_cases h bus with ⟨c, hperformed, hstep⟩ | ⟨e, hraised, -⟩
  · rw [hc] at hperformed
    injection hperformed with hcontext
    have hregisters : c.registers = receive h.registers (Access.fetch bus h.pc).1 result := by
      rw [← hcontext]
    have hcsr : c.csr = h.csr := by rw [← hcontext]
    have hnext : c.next = BitVec.ofInt 32 next := by rw [← hcontext]
    have hpending : (h.adopt c).csr.pending? = h.csr.pending? := by
      show (countCycle c.csr).pending? = _
      rw [hcsr]
      rfl
    rw [hstep]
    refine ⟨⟨?_, ?_, ?_, ?_, isa_complete _ _⟩, by rw [← hcontext]⟩
    · rintro v rfl r hrd hr
      rw [registers_complete]
      show c.registers.get r = _
      rw [hregisters, get_receive, if_pos ⟨hrd, hr⟩]
    · intro r hr
      rw [registers_complete]
      show c.registers.get r = _
      rw [hregisters]
      cases result with
      | none => rfl
      | some v =>
          rw [get_receive, if_neg]
          rintro ⟨hrd, hne⟩
          rcases hr with hnone | hother | hzero
          · cases hnone
          · exact hother hrd
          · exact hne hzero
    · intro hp
      rw [complete_of_none (hpending.trans hp), ← hnext, ← hcsr]
      exact ⟨rfl, rfl, rfl⟩
    · intro line hp
      rw [complete_of_some (hpending.trans hp), ← hnext, ← hcsr]
      exact ⟨rfl, rfl, rfl⟩
  · rw [hc] at hraised
    cases hraised

end Hart

end HomeComputer
