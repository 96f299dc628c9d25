/-
What the instructions that multiply and divide do to a hart.

A hart carries out one of them where it has the instruction set and the word has its codes, and
for no other word.  The step then puts the function of the two registers, as they were before,
into the destination and goes on at the next word; it raises no exception, whatever the operands
are, and asks nothing of the bus but the word.  What the functions obey on the integers is in
`MulDiv.Products` and `MulDiv.Quotients`.
-/
import HomeComputer.Memory.WordMemory
import HomeComputer.Proofs.Isa.Multiplication
import HomeComputer.Proofs.Isa.Table
import HomeComputer.Proofs.Processor.CsrWrites

namespace HomeComputer

/-! ### Words -/

namespace Extension

/-- The codes of an instruction that multiplies or divides. -/
theorem operation?_m_eq_some_iff {w : Word} {o : MulDiv} :
    m.operation? w = some (.mulDiv o) ↔
      Manual.opcode w = 0x33 ∧ Manual.funct7 w = 1 ∧ Manual.funct3 w = o.code.toNat := by
  constructor
  · intro h
    have hencodes := encodes_of_operation? h
    refine ⟨hencodes.manual_opcode, ?_, hencodes.manual_funct3 rfl⟩
    exact (Manual.toNat_bits w 25 7).symm.trans (congrArg BitVec.toNat hencodes.funct7)
  · rintro ⟨hopcode, hfunct7, hfunct3⟩
    have hcode : mulDiv w.funct3 = o := by
      rw [Manual.funct3_eq hfunct3, BitVec.ofNat_toNat, BitVec.setWidth_eq]
      cases o <;> rfl
    simp only [operation?, Manual.opcode_eq hopcode, Manual.funct7_eq hfunct7, hcode, and_self,
      if_true]

/-- No other set has these operations. -/
theorem eq_m_of_mulDiv {e : Extension} {w : Word} {o : MulDiv}
    (h : e.operation? w = some (.mulDiv o)) : e = m := by
  have hencodes := encodes_of_operation? h
  have hm : m.operation? w = some (.mulDiv (mulDiv w.funct3)) := by
    have hopcode : w.opcode = 0x33#7 := hencodes.opcode
    have hfunct7 : w.funct7 = 1#7 := hencodes.funct7
    simp only [operation?, hopcode, hfunct7, and_self, if_true]
  exact eq_of_claims h hm

end Extension

/-! ### Steps -/

namespace Hart

variable {β : Type} [Bus β]

/-- A hart multiplies or divides where it has the set and the word has the codes. -/
theorem executes_mulDiv_iff (h : Hart) (bus : β) (o : MulDiv) :
    h.Executes bus (.mulDiv o) ↔
      Extension.m ∈ h.isa ∧ Manual.opcode (Access.fetch bus h.pc).1 = 0x33 ∧
      Manual.funct7 (Access.fetch bus h.pc).1 = 1 ∧
      Manual.funct3 (Access.fetch bus h.pc).1 = o.code.toNat := by
  rw [← Extension.operation?_m_eq_some_iff]
  constructor
  · rintro ⟨insn, hdecoded⟩
    obtain ⟨e, he, op, hop, hfound⟩ := Extension.claims_of_decodeBy hdecoded
    obtain rfl : op = .mulDiv o := congrArg Decoded.operation hfound
    obtain rfl := Extension.eq_m_of_mulDiv hop
    exact ⟨he, hop⟩
  · rintro ⟨hm, hop⟩
    exact ⟨_, Extension.decodeBy_of_claims hm hop⟩

/-- The word completes with the function of the two registers. -/
theorem completes_mulDiv {h : Hart} {w : Word} {o : MulDiv} (hm : Extension.m ∈ h.isa)
    (hop : Extension.m.operation? w = some (.mulDiv o)) (bus : β) :
    h.Completes w bus (some (o.apply (h.registers.get w.rs1) (h.registers.get w.rs2)).toInt)
      (h.pc.toNat + 4) bus := by
  unfold Completes
  rw [performWord_of_claims hm hop, ← following, receive, BitVec.ofInt_toInt]
  rfl

/-- **Multiplication and division obey integer arithmetic**, for any two operands, and every
instruction that multiplies or divides puts the result for the two registers into its
destination and raises no exception, on every hart that has the set. -/
theorem multiply_and_divide :
    (∀ a b : Word, MulDiv.Products a b ∧ MulDiv.Quotients a b) ∧
    ∀ (h : Hart) (bus : β) (o : MulDiv),
      let raw := (Access.fetch bus h.pc).1
      (h.Executes bus (.mulDiv o) ↔ Extension.m ∈ h.isa ∧ Manual.opcode raw = 0x33 ∧
        Manual.funct7 raw = 1 ∧ Manual.funct3 raw = o.code.toNat) ∧
      (h.Executes bus (.mulDiv o) →
        h.Executed raw (some (o.apply (h.registers.get raw.rs1) (h.registers.get raw.rs2)).toInt)
          (h.pc.toNat + 4) (h.step bus).1 ∧
        (h.step bus).2 = (Access.fetch bus h.pc).2 ∧
        ∀ e, (h.step bus).1.trap ≠ .exception e) := by
  refine ⟨fun a b => ⟨MulDiv.products a b, MulDiv.quotients a b⟩, ?_⟩
  intro h bus o raw
  refine ⟨executes_mulDiv_iff h bus o, ?_⟩
  intro hx
  obtain ⟨hm, hcodes⟩ := (executes_mulDiv_iff h bus o).mp hx
  have hop := Extension.operation?_m_eq_some_iff.mpr hcodes
  have hcompletes := completes_mulDiv hm hop (Access.fetch bus h.pc).2
  obtain ⟨hexecuted, hbus⟩ := executed_of_completes hcompletes
  exact ⟨hexecuted, hbus, trap_ne_exception_of_completed hcompletes⟩

/-- The one quotient that is no word, of the least word by minus one: `div a0, a0, a1` leaves the
dividend in place and goes on. -/
theorem multiply_and_divide_wraps :
    let h : Hart :=
      { registers := (Registers.zero.set 10#5 0x80000000#32).set 11#5 0xffffffff#32 }
    let bus : WordMemory := ({} : WordMemory).put 0#32 0x02b54533#32
    h.Executes bus (.mulDiv .div) ∧ (h.step bus).1.registers.get 10#5 = 0x80000000#32 ∧
      (h.step bus).1.pc = 4#32 ∧
      (MulDiv.div.apply 0x80000000#32 0xffffffff#32).toInt = -2 ^ 31 ∧
      (MulDiv.rem.apply (-7#32) 2#32).toInt.sign = -1 := by
  intro h bus
  obtain ⟨harithmetic, hsteps⟩ := multiply_and_divide (β := WordMemory)
  obtain ⟨hiff, hstep⟩ := hsteps h bus .div
  have hx : h.Executes bus (.mulDiv .div) := hiff.mpr (by decide +kernel)
  obtain ⟨hexecuted, -, -⟩ := hstep hx
  have hresult : (Access.fetch bus h.pc).1 = 0x02b54533#32 := by decide +kernel
  refine ⟨hx, ?_, ?_, ?_, ?_⟩
  · have hrd : (10#5 : Reg).toNat = Manual.rd (Access.fetch bus h.pc).1 := by
      rw [hresult]
      decide
    refine (hexecuted.destination _ rfl 10#5 hrd (by decide)).trans ?_
    rw [hresult]
    decide +kernel
  · exact (hexecuted.uninterrupted (by decide +kernel)).2.1.trans (by decide)
  · exact ((harithmetic _ _).2.wrapped (by decide) (by decide)).1
  · exact ((harithmetic _ _).2.remainder (by decide)).2.resolve_left (by decide)

end Hart

end HomeComputer
