/-
The base instructions do what the manual says.

`Manual.Effect` is the manual's table, over integers.  Every word that it has an entry for
decodes to one operation, whatever the rest of its bits, and the operation does what the
entry says: it puts the result into the destination and goes on at the address given.
`completes_of_effect` goes through the table once.  Each entry is an instance of one of a
few lemmas, one for each way in which an operation treats its fields.
-/
import HomeComputer.Memory.Transcript
import HomeComputer.Memory.WordMemory
import HomeComputer.Proofs.Processor.Completion

namespace HomeComputer

/-! ### Decoding -/

namespace Extension

theorem base?_branch {w : Word} (ho : Manual.opcode w = 0x63) :
    base? w = (condition? w.funct3).map .branch := by
  unfold base?
  rw [Manual.opcode_eq ho]
  rfl

theorem base?_aluImm {w : Word} (ho : Manual.opcode w = 0x13) :
    base? w = (aluImm? w.funct3 w.funct7).map .aluImm := by
  unfold base?
  rw [Manual.opcode_eq ho]
  rfl

theorem base?_register {w : Word} (ho : Manual.opcode w = 0x33) :
    base? w = register? w.funct3 w.funct7 := by
  unfold base?
  rw [Manual.opcode_eq ho]
  rfl

end Extension

namespace Hart

variable {β : Type}

section

variable [Bus β] {h : Hart} {w : Word}

theorem completes_lui (hi : Extension.i ∈ h.isa) (ho : Manual.opcode w = 0x37) (bus : β) :
    h.Completes w bus (some (Manual.immU w)) (h.pc.toNat + 4) bus := by
  have hop : Extension.i.operation? w = some .lui := by
    show Extension.base? w = _
    unfold Extension.base?
    rw [Manual.opcode_eq ho]
    rfl
  unfold Completes
  rw [performWord_of_claims hi hop, ← following, receive, ← Manual.toInt_immU, BitVec.ofInt_toInt]
  rfl

theorem completes_auipc (hi : Extension.i ∈ h.isa) (ho : Manual.opcode w = 0x17) (bus : β) :
    h.Completes w bus (some (h.pc.toNat + Manual.immU w)) (h.pc.toNat + 4) bus := by
  have hop : Extension.i.operation? w = some .auipc := by
    show Extension.base? w = _
    unfold Extension.base?
    rw [Manual.opcode_eq ho]
    rfl
  unfold Completes
  rw [performWord_of_claims hi hop, ← following, receive, ← Manual.toInt_immU,
    ← Manual.address_add]
  rfl

theorem completes_jal (hi : Extension.i ∈ h.isa) (ho : Manual.opcode w = 0x6f) (bus : β) :
    h.Completes w bus (some (h.pc.toNat + 4)) (h.pc.toNat + Manual.immJ w) bus := by
  have hop : Extension.i.operation? w = some .jal := by
    show Extension.base? w = _
    unfold Extension.base?
    rw [Manual.opcode_eq ho]
    rfl
  unfold Completes
  rw [performWord_of_claims hi hop, receive, ← following, ← Manual.toInt_immJ,
    ← Manual.address_add]
  rfl

theorem completes_jalr (hi : Extension.i ∈ h.isa) (ho : Manual.opcode w = 0x67)
    (hf : Manual.funct3 w = 0) (bus : β) :
    h.Completes w bus (some (h.pc.toNat + 4))
      (2 * ((h.signed (Manual.rs1 w) + Manual.immI w) / 2)) bus := by
  have hop : Extension.i.operation? w = some .jalr := by
    show Extension.base? w = _
    unfold Extension.base?
    rw [Manual.opcode_eq ho, Manual.funct3_eq hf]
    rfl
  unfold Completes
  rw [performWord_of_claims hi hop, receive, ← following, ← Manual.clearBit0_ofInt, signed_rs1,
    ← Manual.toInt_immI, ← Manual.add_eq_ofInt]
  rfl

/-- A branch is taken where the manual's relation holds of the two registers, if that is what
its condition decides on words. -/
theorem completes_branch (hi : Extension.i ∈ h.isa) (ho : Manual.opcode w = 0x63) {n : Nat}
    (hn : Manual.funct3 w = n) {cond : Condition}
    (hcond : Extension.condition? (BitVec.ofNat 3 n) = some cond)
    {R : Int → Int → Prop} [DecidableRel R]
    (hR : ∀ a b : Word, cond.holds a b = true ↔ R a.toInt b.toInt) (bus : β) :
    h.Completes w bus none
      (if R (h.signed (Manual.rs1 w)) (h.signed (Manual.rs2 w)) then h.pc.toNat + Manual.immB w
        else h.pc.toNat + 4) bus := by
  have hop : Extension.i.operation? w = some (.branch cond) := by
    show Extension.base? w = _
    rw [Extension.base?_branch ho, Manual.funct3_eq hn, hcond]
    rfl
  have hholds := hR (h.registers.get w.rs1) (h.registers.get w.rs2)
  unfold Completes
  rw [performWord_of_claims hi hop, receive, signed_rs1, signed_rs2]
  by_cases htaken : R (h.registers.get w.rs1).toInt (h.registers.get w.rs2).toInt
  · rw [if_pos htaken, ← Manual.toInt_immB, ← Manual.address_add]
    exact congrArg Outcome.completed (if_pos (hholds.mpr htaken))
  · rw [if_neg htaken, ← following]
    exact congrArg Outcome.completed (if_neg (mt hholds.mp htaken))

/-- Arithmetic with an immediate puts the manual's `f` into the destination, if that is what
it computes on words. -/
theorem completes_aluImm (hi : Extension.i ∈ h.isa) (ho : Manual.opcode w = 0x13) {n : Nat}
    (hn : Manual.funct3 w = n) {o : Alu}
    (halu : Extension.aluImm? (BitVec.ofNat 3 n) w.funct7 = some o) {f : Int → Int → Int}
    (hf : ∀ a b : Word, o.apply a b = BitVec.ofInt 32 (f a.toInt b.toInt)) (bus : β) :
    h.Completes w bus (some (f (h.signed (Manual.rs1 w)) (Manual.immI w)))
      (h.pc.toNat + 4) bus := by
  have hop : Extension.i.operation? w = some (.aluImm o) := by
    show Extension.base? w = _
    rw [Extension.base?_aluImm ho, Manual.funct3_eq hn, halu]
    rfl
  unfold Completes
  rw [performWord_of_claims hi hop, ← following, receive, signed_rs1, ← Manual.toInt_immI, ← hf]
  rfl

/-- Arithmetic on two registers puts the manual's `f` into the destination, if that is what
it computes on words. -/
theorem completes_alu (hi : Extension.i ∈ h.isa) (ho : Manual.opcode w = 0x33) {n k : Nat}
    (hn : Manual.funct3 w = n) (hk : Manual.funct7 w = k) {o : Alu}
    (halu : Extension.register? (BitVec.ofNat 3 n) (BitVec.ofNat 7 k) = some (.alu o))
    {f : Int → Int → Int}
    (hf : ∀ a b : Word, o.apply a b = BitVec.ofInt 32 (f a.toInt b.toInt)) (bus : β) :
    h.Completes w bus (some (f (h.signed (Manual.rs1 w)) (h.signed (Manual.rs2 w))))
      (h.pc.toNat + 4) bus := by
  have hop : Extension.i.operation? w = some (.alu o) := by
    show Extension.base? w = _
    rw [Extension.base?_register ho, Manual.funct3_eq hn, Manual.funct7_eq hk, halu]
  unfold Completes
  rw [performWord_of_claims hi hop, ← following, receive, signed_rs1, signed_rs2, ← hf]
  rfl

theorem completes_sub (hi : Extension.i ∈ h.isa) (ho : Manual.opcode w = 0x33)
    (hf : Manual.funct3 w = 0) (hs : Manual.funct7 w = 0x20) (bus : β) :
    h.Completes w bus (some (h.signed (Manual.rs1 w) - h.signed (Manual.rs2 w)))
      (h.pc.toNat + 4) bus := by
  have hop : Extension.i.operation? w = some .sub := by
    show Extension.base? w = _
    rw [Extension.base?_register ho, Manual.funct3_eq hf, Manual.funct7_eq hs]
    rfl
  unfold Completes
  rw [performWord_of_claims hi hop, ← following, receive, signed_rs1, signed_rs2,
    ← Manual.sub_eq_ofInt]
  rfl

theorem completes_fence (hi : Extension.i ∈ h.isa) (ho : Manual.opcode w = 0x0f)
    (hf : Manual.funct3 w = 0) (bus : β) : h.Completes w bus none (h.pc.toNat + 4) bus := by
  have hop : Extension.i.operation? w = some .fence := by
    show Extension.base? w = _
    unfold Extension.base?
    rw [Manual.opcode_eq ho, Manual.funct3_eq hf]
    rfl
  unfold Completes
  rw [performWord_of_claims hi hop, ← following]
  rfl

theorem completes_fenceI (hf : Extension.zifencei ∈ h.isa) (ho : Manual.opcode w = 0x0f)
    (hn : Manual.funct3 w = 1) (bus : β) : h.Completes w bus none (h.pc.toNat + 4) bus := by
  have hop : Extension.zifencei.operation? w = some .fenceI :=
    if_pos ⟨Manual.opcode_eq ho, Manual.funct3_eq hn⟩
  unfold Completes
  rw [performWord_of_claims hf hop, ← following]
  rfl

/-- **Every entry of the manual's table is what the word does.** -/
theorem completes_of_effect (hi : Extension.i ∈ h.isa) (hf : Extension.zifencei ∈ h.isa)
    (bus : β) {result : Option Int} {next : Int}
    (he : Manual.Effect h.signed h.pc.toNat w result next) :
    h.Completes w bus result next bus := by
  cases he with
  | lui ho => exact completes_lui hi ho bus
  | auipc ho => exact completes_auipc hi ho bus
  | jal ho => exact completes_jal hi ho bus
  | jalr ho hn => exact completes_jalr hi ho hn bus
  | beq ho hn => exact completes_branch hi ho hn rfl Manual.eq_holds_iff bus
  | bne ho hn => exact completes_branch hi ho hn rfl Manual.ne_holds_iff bus
  | blt ho hn => exact completes_branch hi ho hn rfl Manual.lt_holds_iff bus
  | bge ho hn => exact completes_branch hi ho hn rfl Manual.ge_holds_iff bus
  | bltu ho hn =>
      exact completes_branch hi ho hn rfl (R := fun a b => Manual.unsigned a < Manual.unsigned b)
        Manual.ltu_holds_iff bus
  | bgeu ho hn =>
      exact completes_branch hi ho hn rfl (R := fun a b => Manual.unsigned a ≥ Manual.unsigned b)
        Manual.geu_holds_iff bus
  | addi ho hn => exact completes_aluImm hi ho hn rfl (f := (· + ·)) Manual.add_eq_ofInt bus
  | slti ho hn => exact completes_aluImm hi ho hn rfl Manual.slt_eq_ofInt bus
  | sltiu ho hn => exact completes_aluImm hi ho hn rfl Manual.sltu_eq_ofInt bus
  | xori ho hn => exact completes_aluImm hi ho hn rfl Manual.xor_eq_ofInt bus
  | ori ho hn => exact completes_aluImm hi ho hn rfl Manual.or_eq_ofInt bus
  | andi ho hn => exact completes_aluImm hi ho hn rfl Manual.and_eq_ofInt bus
  -- Only a shift looks at the larger function code, which is part of its immediate.
  | slli ho hn hk =>
      refine completes_aluImm hi ho hn ?_ Manual.sll_eq_ofInt bus
      rw [Manual.funct7_eq hk]
      rfl
  | srli ho hn hk =>
      refine completes_aluImm hi ho hn ?_ Manual.srl_eq_ofInt bus
      rw [Manual.funct7_eq hk]
      rfl
  | srai ho hn hk =>
      refine completes_aluImm hi ho hn ?_ Manual.sra_eq_ofInt bus
      rw [Manual.funct7_eq hk]
      rfl
  | add ho hn hk => exact completes_alu hi ho hn hk rfl (f := (· + ·)) Manual.add_eq_ofInt bus
  | sub ho hn hk => exact completes_sub hi ho hn hk bus
  | sll ho hn hk => exact completes_alu hi ho hn hk rfl Manual.sll_eq_ofInt bus
  | slt ho hn hk => exact completes_alu hi ho hn hk rfl Manual.slt_eq_ofInt bus
  | sltu ho hn hk => exact completes_alu hi ho hn hk rfl Manual.sltu_eq_ofInt bus
  | xor ho hn hk => exact completes_alu hi ho hn hk rfl Manual.xor_eq_ofInt bus
  | srl ho hn hk => exact completes_alu hi ho hn hk rfl Manual.srl_eq_ofInt bus
  | sra ho hn hk => exact completes_alu hi ho hn hk rfl Manual.sra_eq_ofInt bus
  | or ho hn hk => exact completes_alu hi ho hn hk rfl Manual.or_eq_ofInt bus
  | and ho hn hk => exact completes_alu hi ho hn hk rfl Manual.and_eq_ofInt bus
  | fence ho hn => exact completes_fence hi ho hn bus
  | fenceI ho hn => exact completes_fenceI hf ho hn bus

end

/-- **A base instruction has the effect that the manual gives over integers**, on any state of
a full hart, and asks nothing of the bus but itself. -/
theorem step_effect [Bus β] (h : Hart) (hisa : h.isa = Extension.full) (bus : Transcript β)
    (result : Option Int) (next : Int)
    (he : Manual.Effect h.signed h.pc.toNat ((Bus.read bus.bus (h.pc &&& ~~~3#32)).1.getD 0#32)
      result next) :
    h.Executed ((Bus.read bus.bus (h.pc &&& ~~~3#32)).1.getD 0#32) result next (h.step bus).1 ∧
      (h.step bus).2.log = bus.log ++ [.read (h.pc &&& ~~~3#32)] ∧
      (h.step bus).2.bus = (Bus.read bus.bus (h.pc &&& ~~~3#32)).2 := by
  have hi : Extension.i ∈ h.isa := by rw [hisa]; decide
  have hf : Extension.zifencei ∈ h.isa := by rw [hisa]; decide
  obtain ⟨hexecuted, hbus⟩ :=
    executed_of_completes (completes_of_effect hi hf (Access.fetch bus h.pc).2 he)
  rw [hbus]
  exact ⟨hexecuted, rfl, rfl⟩

/-- `jalr ra, 8(ra)` at the last address: the target is computed before the link is written,
and the link wraps round. -/
theorem step_effect_jalr :
    let h : Hart := { pc := 0xfffffffc#32, registers := Registers.zero.set 1#5 0x101#32 }
    let bus : Transcript WordMemory := { bus := ({} : WordMemory).put 0xfffffffc#32 0x008080e7#32 }
    h.isa = Extension.full ∧ (h.step bus).1.pc = 0x108#32 ∧
      (h.step bus).1.registers.get 1#5 = 0#32 ∧
      (h.step bus).2.log = [.read 0xfffffffc#32] := by
  intro h bus
  have hraw : (Bus.read bus.bus (h.pc &&& ~~~3#32)).1.getD 0#32 = 0x008080e7#32 := by
    decide +kernel
  have hx : h.signed 1 = 0x101 := by decide +kernel
  have he : Manual.Effect h.signed h.pc.toNat ((Bus.read bus.bus (h.pc &&& ~~~3#32)).1.getD 0#32)
      (some (h.pc.toNat + 4)) 0x108 := by
    rw [hraw]
    have hjalr : Manual.Effect h.signed h.pc.toNat 0x008080e7#32 _ _ :=
      .jalr (by decide) (by decide)
    rwa [show Manual.rs1 0x008080e7#32 = 1 from by decide,
      show Manual.immI 0x008080e7#32 = 8 from by decide, hx] at hjalr
  obtain ⟨hexecuted, hlog, -⟩ := step_effect h rfl bus _ _ he
  have hrd : (1#5 : Reg).toNat = Manual.rd ((Bus.read bus.bus (h.pc &&& ~~~3#32)).1.getD 0#32) := by
    rw [hraw]
    decide
  refine ⟨rfl, ?_, ?_, ?_⟩
  · exact (hexecuted.uninterrupted (by decide +kernel)).2.1.trans (by decide)
  · exact (hexecuted.destination _ rfl 1#5 hrd (by decide)).trans (by decide)
  · exact hlog.trans (by decide)

end Hart

end HomeComputer
