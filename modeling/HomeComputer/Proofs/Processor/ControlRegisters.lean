/-
Instructions that swap a control register with a general one.

The six instructions are one (`Execute.csr_eq`): look the number up, refuse what is not there or
may not be written, hand over the old content and write the new one.  That a plain write into
register 0 does not read first makes no difference to anyone, because nothing in this file
changes by being read, and the value that is made up instead goes nowhere.

Some registers show what others hold: there are two names for each half of a counter, of which one
can be written.  So a write is described by what every register shows after it
(`CsrFile.get_set`).
-/
import HomeComputer.Proofs.Processor.Handlers

namespace HomeComputer

/-! ### Numbers -/

namespace Csr

theorem isReadOnly_iff_bits {n : CsrNumber} :
    isReadOnly n = true ↔ n.toNat / 2 ^ 10 % 2 ^ 2 = 3 := by
  unfold isReadOnly
  rw [beq_iff_eq, ← BitVec.toNat_inj, BitVec.extractLsb'_toNat, Nat.shiftRight_eq_div_pow]
  rfl

theorem isReadOnly_iff {n : CsrNumber} (hn : n.toNat < 2 ^ 12) :
    isReadOnly n = true ↔ n.toNat / 2 ^ 10 = 3 := by
  rw [isReadOnly_iff_bits]
  omega

/-- A number is looked up as the register that has it. -/
theorem ofNumber?_eq_some_iff {n : Nat} (hn : n < 2 ^ 12) {r : Csr} :
    ofNumber? (BitVec.ofNat 16 n) = some r ↔ r.number.toNat = n := by
  have hnumber : (BitVec.ofNat 16 n).toNat = n := by
    rw [BitVec.toNat_ofNat, Nat.mod_eq_of_lt (Nat.lt_trans hn (by decide))]
  constructor
  · intro h
    rwa [CsrFile.ofNumber?_eq_some h] at hnumber
  · intro h
    rw [← BitVec.eq_of_toNat_eq (h.trans hnumber.symm), ofNumber?_number]

theorem number_inj {r q : Csr} (h : r.number = q.number) : r = q := by
  have hfound := ofNumber?_number r
  rw [h, ofNumber?_number] at hfound
  exact (Option.some.inj hfound).symm

/-- The register whose content is shown. -/
def source : Csr → Csr
  | cycle => mcycle
  | cycleh => mcycleh
  | instret => minstret
  | instreth => minstreth
  | r => r

/-- What a register holds of a value that is written to it. -/
def legal : Csr → Word → Word
  | mstatus, v => v &&& 0x88#32
  | misa, _ => CsrFile.misaValue
  | mtvec, v | mepc, v => v &&& ~~~3#32
  | _, v => v

end Csr

/-! ### Reading after writing -/

theorem Status.toWord_ofWord (w : Word) : (ofWord w).toWord = w &&& 0x88#32 := by
  have hmie : ∀ i < 32, (0x08#32).getLsbD i = decide (i = 3) := by decide
  have hmpie : ∀ i < 32, (0x80#32).getLsbD i = decide (i = 7) := by decide
  have hboth : ∀ i < 32, (0x88#32).getLsbD i = (decide (i = 3) || decide (i = 7)) := by decide
  apply BitVec.eq_of_getLsbD_eq
  intro i hi
  show ((if w.getLsbD 3 then 0x08#32 else 0#32) ||| (if w.getLsbD 7 then 0x80#32 else 0#32)).getLsbD
    i = (w &&& 0x88#32).getLsbD i
  rw [BitVec.getLsbD_or, BitVec.getLsbD_and, apply_ite (BitVec.getLsbD · i),
    apply_ite (BitVec.getLsbD · i), hmie i hi, hmpie i hi, hboth i hi, BitVec.getLsbD_zero]
  by_cases h3 : i = 3
  · subst h3
    simp
  · by_cases h7 : i = 7
    · subst h7
      simp
    · simp [h3, h7]

namespace CsrFile

theorem lowHalf_append (high low : Word) : lowHalf (high ++ low) = low :=
  BitVec.extractLsb'_append_eq_right

theorem highHalf_append (high low : Word) : highHalf (high ++ low) = high :=
  BitVec.extractLsb'_append_eq_left

/-- After a write a register shows what was written if it shows the content of that register, and
otherwise what it did before. -/
theorem get_set (f : CsrFile) {r : Csr} (hr : ¬Csr.isReadOnly r.number = true) (v : Word)
    (q : Csr) : (f.set r v).get q = if q.source = r then r.legal v else f.get q := by
  cases r with
  | mstatus =>
      cases q with
      | mstatus => exact Status.toWord_ofWord v
      | _ => rfl
  | mcycle =>
      cases q with
      | mcycle | cycle => exact lowHalf_append _ v
      | mcycleh | cycleh => exact highHalf_append _ v
      | _ => rfl
  | mcycleh =>
      cases q with
      | mcycle | cycle => exact lowHalf_append v _
      | mcycleh | cycleh => exact highHalf_append v _
      | _ => rfl
  | minstret =>
      cases q with
      | minstret | instret => exact lowHalf_append _ v
      | minstreth | instreth => exact highHalf_append _ v
      | _ => rfl
  | minstreth =>
      cases q with
      | minstret | instret => exact lowHalf_append v _
      | minstreth | instreth => exact highHalf_append v _
      | _ => rfl
  | cycle | instret | cycleh | instreth | mhartid => exact absurd rfl hr
  | misa | mie | mtvec | mscratch | mepc | mcause | mtval | mip => cases q <;> rfl

/-- What the registers show after an access that may not write. -/
theorem get_ite_set (f : CsrFile) {r : Csr} {p : Prop} [Decidable p]
    (hr : p → ¬Csr.isReadOnly r.number = true) (v : Word) (q : Csr) :
    (if p then f.set r v else f).get q = if p ∧ q.source = r then r.legal v else f.get q := by
  by_cases hp : p
  · rw [if_pos hp, get_set f (hr hp)]
    exact if_congr (and_iff_right hp).symm rfl rfl
  · rw [if_neg hp, if_neg fun h => hp h.1]

end CsrFile

/-! ### One instruction for six -/

namespace Execute

variable {β : Type}

/-- An access to a control register hands over the old content and then writes, if it writes and
may; what is not there, or may not be written, is not touched. -/
theorem csr_eq (a : CsrAction) (immediate : Bool) (w : Word) (c : Context β) :
    csr a immediate (Instruction.ofWord .I w) c =
      match Csr.ofNumber? ((w.bits 20 12).setWidth 16) with
      | none => .raised .illegalInstruction c
      | some r =>
          if (a = .write ∨ w.rs1 ≠ 0#5) ∧ Csr.isReadOnly r.number = true then
            .raised .illegalInstruction c
          else .completed { c with
            registers := c.registers.set w.rd (c.csr.get r)
            csr :=
              if a = .write ∨ w.rs1 ≠ 0#5 then
                c.csr.set r (a.combine (c.csr.get r)
                  (if immediate then w.rs1.setWidth 32 else c.get w.rs1))
              else c.csr } := by
  simp only [csr, Instruction.ofWord]
  generalize hn : (w.bits 20 12).setWidth 16 = n
  have hread : c.csr.read? n = (Csr.ofNumber? n).map c.csr.get := rfl
  cases hr : Csr.ofNumber? n with
  | none =>
      have hwrite (v : Word) : c.csr.write? n v = none := by
        unfold CsrFile.write?
        rw [hr]
        exact ite_self _
      rw [hread, hr]
      by_cases hreads : a ≠ .write ∨ w.rd ≠ 0#5
      · rw [if_pos hreads]
        rfl
      · have hwrites : a = .write := Decidable.not_not.mp fun h => hreads (.inl h)
        rw [if_neg hreads]
        simp only [if_pos (Or.inl hwrites), hwrite]
  | some r =>
      have hwrite (v : Word) : c.csr.write? n v =
          if Csr.isReadOnly r.number then none else some (c.csr.set r v) := by
        unfold CsrFile.write?
        rw [hr, CsrFile.ofNumber?_eq_some hr]
        rfl
      -- What is handed over and written is the same as if the old content had been read.
      obtain ⟨old, hold, hvalue, hset⟩ : ∃ old : Word,
          (if a ≠ .write ∨ w.rd ≠ 0#5 then c.csr.read? n else some 0#32) = some old ∧
          (∀ operand, a.combine old operand = a.combine (c.csr.get r) operand) ∧
          c.registers.set w.rd old = c.registers.set w.rd (c.csr.get r) := by
        by_cases hreads : a ≠ .write ∨ w.rd ≠ 0#5
        · rw [if_pos hreads, hread, hr]
          exact ⟨_, rfl, fun _ => rfl, rfl⟩
        · obtain ⟨rfl, hrd⟩ : a = .write ∧ w.rd = 0#5 := by
            rwa [not_or, Decidable.not_not, Decidable.not_not] at hreads
          rw [if_neg hreads, hrd]
          exact ⟨0#32, rfl, fun _ => rfl, by rw [Registers.set_zero, Registers.set_zero]⟩
      rw [hold]
      simp only [hwrite, hvalue, ← hset]
      by_cases hwrites : a = .write ∨ w.rs1 ≠ 0#5
      · by_cases hro : Csr.isReadOnly r.number = true
        · simp only [if_pos hwrites, if_pos hro, if_pos (And.intro hwrites hro)]
        · simp only [if_pos hwrites, if_neg hro, if_neg fun h : _ ∧ _ => hro h.2]
          rfl
      · simp only [if_neg hwrites, if_neg fun h : _ ∧ _ => hwrites h.1]
        rfl

end Execute

/-! ### What the words do -/

/-- Whether an access to a control register writes it: a plain write does, and setting or clearing
bits does unless the operand field is zero. -/
def CsrAction.Writes (a : CsrAction) (field : Nat) : Prop := a = .write ∨ field ≠ 0

instance (a : CsrAction) (field : Nat) : Decidable (a.Writes field) :=
  inferInstanceAs (Decidable (_ ∨ _))

theorem Extension.operation?_csr {raw : Word} {a : CsrAction} {immediate : Bool}
    (ho : raw.opcode = 0x73#7) (hf : raw.funct3 = a.code immediate) :
    zicsr.operation? raw = some (.csr a immediate) := by
  have hmret : raw ≠ mretWord := by
    rintro rfl
    revert hf
    cases a <;> cases immediate <;> decide
  show (if raw.opcode = 0x73#7 then if raw = mretWord then some Operation.mret else csr? raw.funct3
    else none) = _
  rw [if_pos ho, if_neg hmret, hf]
  cases a <;> cases immediate <;> rfl

/-- The destination that a word names receives a value, unless it is register 0. -/
theorem Registers.get_set_rd (x : Registers) (raw v : Word) (q : Reg) :
    (x.set raw.rd v).get q = if q.toNat = Manual.rd raw ∧ q ≠ 0#5 then v else x.get q := by
  have hrd : raw.rd.toNat = Manual.rd raw := Manual.toNat_bits raw 7 5
  rw [get_set, ← hrd]
  refine if_congr ⟨?_, ?_⟩ rfl rfl
  · rintro ⟨rfl, hzero⟩
    exact ⟨rfl, hzero⟩
  · rintro ⟨hq, hzero⟩
    obtain rfl := BitVec.eq_of_toNat_eq hq
    exact ⟨rfl, hzero⟩

namespace Hart

variable {β : Type} [Bus β] {h : Hart} {raw : Word} {a : CsrAction} {immediate : Bool}

/-- The operand of an access to a control register: the number in the operand field, or what the
register that it names holds. -/
def csrOperand (h : Hart) (immediate : Bool) (raw : Word) : Word :=
  if immediate then BitVec.ofNat 32 (Manual.rs1 raw)
  else h.registers.get (BitVec.ofNat 5 (Manual.rs1 raw))

/-- What a word of the six does, in terms of its fields. -/
theorem performWord_csr (hz : .zicsr ∈ h.isa) (ho : Manual.opcode raw = 0x73)
    (hf : Manual.funct3 raw = (a.code immediate).toNat) (bus : β) :
    h.performWord raw bus =
      match Csr.ofNumber? (BitVec.ofNat 16 (Manual.field raw 20 12)) with
      | none => .raised .illegalInstruction (Context.start h.pc h.registers h.csr bus)
      | some r =>
          if a.Writes (Manual.rs1 raw) ∧ Csr.isReadOnly r.number = true then
            .raised .illegalInstruction (Context.start h.pc h.registers h.csr bus)
          else .completed { Context.start h.pc h.registers h.csr bus with
            registers := h.registers.set raw.rd (h.csr.get r)
            csr :=
              if a.Writes (Manual.rs1 raw) then
                h.csr.set r (a.combine (h.csr.get r) (h.csrOperand immediate raw))
              else h.csr } := by
  have hnumber : (raw.bits 20 12).setWidth 16 = BitVec.ofNat 16 (Manual.field raw 20 12) := by
    rw [← BitVec.ofNat_toNat, Manual.toNat_bits]
  have hrs1 : raw.rs1.toNat = Manual.rs1 raw := Manual.toNat_bits raw 15 5
  have hwrites : (a = .write ∨ raw.rs1 ≠ 0#5) ↔ a.Writes (Manual.rs1 raw) := by
    rw [← hrs1]
    exact or_congr_right (not_congr BitVec.toNat_inj.symm)
  have hoperand : (if immediate then raw.rs1.setWidth 32 else h.registers.get raw.rs1) =
      h.csrOperand immediate raw := by
    unfold csrOperand
    rw [← BitVec.ofNat_toNat, hrs1, show raw.rs1 = _ from Manual.bits_eq rfl]
    rfl
  have hfunct3 : raw.funct3 = a.code immediate := by
    rw [show raw.funct3 = _ from Manual.bits_eq hf, BitVec.ofNat_toNat, BitVec.setWidth_eq]
  have hperform : h.performWord raw bus = Execute.csr a immediate (Instruction.ofWord .I raw)
      (Context.start h.pc h.registers h.csr bus) :=
    performWord_of_claims hz (Extension.operation?_csr (Manual.opcode_eq ho) hfunct3) bus
  rw [hperform, Execute.csr_eq, hnumber, ← hoperand]
  simp only [hwrites]
  rfl

variable (a) (immediate) in
/-- **An instruction on a control register swaps it or is illegal.**  It is illegal exactly if there
is no register of its number, or it writes and the number is one that may only be read, and then
nothing has changed.  Otherwise the destination receives the old content, and a register that is
written holds what it can of the operand, or of its old content with the bits of the operand set
or cleared; the operand is the number in the instruction, or what the register it names held
before.  Nothing else changes. -/
theorem control_registers_swap (hz : .zicsr ∈ h.isa) (ho : Manual.opcode raw = 0x73)
    (hf : Manual.funct3 raw = (match a with | .write => 1 | .set => 2 | .clear => 3) +
      if immediate then 4 else 0) (bus : β) :
    let number := Manual.field raw 20 12
    let operand := h.csrOperand immediate raw
    (h.performWord raw bus =
        .raised .illegalInstruction (Context.start h.pc h.registers h.csr bus) ↔
      (∀ r : Csr, r.number.toNat ≠ number) ∨ a.Writes (Manual.rs1 raw) ∧ number / 2 ^ 10 = 3) ∧
    ∀ r : Csr, r.number.toNat = number →
      ¬(a.Writes (Manual.rs1 raw) ∧ number / 2 ^ 10 = 3) →
      let old := h.csr.get r
      let value := match a with
        | .write => operand
        | .set => old ||| operand
        | .clear => old &&& ~~~operand
      ∃ c, h.performWord raw bus = .completed c ∧
        c.pc = h.pc ∧ c.next = h.pc + 4#32 ∧ c.bus = bus ∧
        (∀ q, c.registers.get q =
          if q.toNat = Manual.rd raw ∧ q ≠ 0#5 then old else h.registers.get q) ∧
        c.csr = (if a.Writes (Manual.rs1 raw) then h.csr.set r value else h.csr) ∧
        ∀ q : Csr, c.csr.get q =
          if a.Writes (Manual.rs1 raw) ∧ q.source = r then r.legal value else h.csr.get q := by
  intro number operand
  have hcode : Manual.funct3 raw = (a.code immediate).toNat := by
    rw [hf]
    cases a <;> cases immediate <;> rfl
  have hperform := performWord_csr hz ho hcode bus
  have hlt : number < 2 ^ 12 := Nat.mod_lt _ (by decide)
  have hfound {r : Csr} : Csr.ofNumber? (BitVec.ofNat 16 number) = some r ↔
      r.number.toNat = number := Csr.ofNumber?_eq_some_iff hlt
  by_cases hr : ∃ r : Csr, r.number.toNat = number
  · obtain ⟨r, hr⟩ := hr
    have hro : Csr.isReadOnly r.number = true ↔ number / 2 ^ 10 = 3 := by
      rw [Csr.isReadOnly_iff (by omega), hr]
    rw [hfound.mpr hr] at hperform
    simp only [hro] at hperform
    by_cases hillegal : a.Writes (Manual.rs1 raw) ∧ number / 2 ^ 10 = 3
    · rw [if_pos hillegal] at hperform
      exact ⟨⟨fun _ => .inr hillegal, fun _ => hperform⟩, fun _ _ h => absurd hillegal h⟩
    · rw [if_neg hillegal] at hperform
      refine ⟨⟨fun h => ?_, fun h => (h.resolve_right hillegal r hr).elim⟩, fun q hq _ => ?_⟩
      · cases hperform.symm.trans h
      · obtain rfl : r = q := Option.some.inj ((hfound.mpr hr).symm.trans (hfound.mpr hq))
        intro old value
        have hvalue : a.combine old operand = value := by cases a <;> rfl
        rw [hvalue] at hperform
        refine ⟨_, hperform, rfl, rfl, rfl, h.registers.get_set_rd raw _, rfl, fun q => ?_⟩
        exact h.csr.get_ite_set (fun hwrites h => hillegal ⟨hwrites, hro.mp h⟩) value q
  · have hnone (r : Csr) : r.number.toNat ≠ number := fun h => hr ⟨r, h⟩
    rw [Option.eq_none_iff_forall_ne_some.mpr fun r h => hnone r (hfound.mp h)] at hperform
    exact ⟨⟨fun _ => .inl hnone, fun _ => hperform⟩, fun r h => absurd h (hnone r)⟩

/-- A plain write with one register as source and destination swaps it with the handler's address,
of which two bits are dropped.  Of the scratch register bits are set by a general register, and
others cleared by a number.  Clearing bits of a counter by a register that holds zero is illegal,
as it names a register that is not register 0. -/
theorem control_registers_swap_in_place :
    let h : Hart := {
      registers := Registers.zero.set 5#5 0x1234567b#32
      csr := { mtvec := 0x80#32, mscratch := 0x0f0f0f0f#32 } }
    let bus : WordMemory := {}
    .zicsr ∈ h.isa ∧
    Manual.opcode 0x305292f3#32 = 0x73 ∧ Manual.funct3 0x305292f3#32 = 1 ∧
    Manual.opcode 0x3402a373#32 = 0x73 ∧ Manual.funct3 0x3402a373#32 = 2 ∧
    Manual.opcode 0x3402f373#32 = 0x73 ∧ Manual.funct3 0x3402f373#32 = 7 ∧
    Manual.opcode 0xc003b373#32 = 0x73 ∧ Manual.funct3 0xc003b373#32 = 3 ∧
    (∃ c, h.performWord 0x305292f3#32 bus = .completed c ∧
      c.registers.get 5#5 = 0x80#32 ∧ c.csr.get .mtvec = 0x12345678#32) ∧
    (∃ c, h.performWord 0x3402a373#32 bus = .completed c ∧
      c.registers.get 6#5 = 0x0f0f0f0f#32 ∧ c.csr.get .mscratch = 0x1f3f5f7f#32) ∧
    (∃ c, h.performWord 0x3402f373#32 bus = .completed c ∧
      c.registers.get 6#5 = 0x0f0f0f0f#32 ∧ c.csr.get .mscratch = 0x0f0f0f0a#32) ∧
    h.performWord 0xc003b373#32 bus =
      .raised .illegalInstruction (Context.start h.pc h.registers h.csr bus) := by
  intro h bus
  have hz : .zicsr ∈ h.isa := by decide
  have hplain : Manual.opcode 0x305292f3#32 = 0x73 := by decide
  have hset : Manual.opcode 0x3402a373#32 = 0x73 := by decide
  have hclear : Manual.opcode 0x3402f373#32 = 0x73 := by decide
  have hcounter : Manual.opcode 0xc003b373#32 = 0x73 := by decide
  refine ⟨hz, hplain, by decide, hset, by decide, hclear, by decide, hcounter, by decide,
    ?_, ?_, ?_, ?_⟩
  · obtain ⟨c, hc, -, -, -, hregisters, -, hcsr⟩ :=
      (control_registers_swap .write false hz hplain (by decide) bus).2
        .mtvec (by decide) (by decide)
    exact ⟨c, hc, (hregisters 5#5).trans (by decide), (hcsr .mtvec).trans (by decide)⟩
  · obtain ⟨c, hc, -, -, -, hregisters, -, hcsr⟩ :=
      (control_registers_swap .set false hz hset (by decide) bus).2
        .mscratch (by decide) (by decide)
    exact ⟨c, hc, (hregisters 6#5).trans (by decide), (hcsr .mscratch).trans (by decide)⟩
  · obtain ⟨c, hc, -, -, -, hregisters, -, hcsr⟩ :=
      (control_registers_swap .clear true hz hclear (by decide) bus).2
        .mscratch (by decide) (by decide)
    exact ⟨c, hc, (hregisters 6#5).trans (by decide), (hcsr .mscratch).trans (by decide)⟩
  · exact (control_registers_swap .clear false hz hcounter (by decide) bus).1.mpr
      (.inr (by decide))

end Hart

end HomeComputer
