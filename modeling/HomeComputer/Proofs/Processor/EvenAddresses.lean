/-
Instruction addresses stay even.

Nothing asks whether the address of an instruction is even.  It is because every way to the next
one keeps the lowest bit clear: the following instruction is four bytes on, branches and jumps go a
distance that is counted in half words, a jump to a register clears the bit, the return from a trap
goes to `mepc`, and a trap goes to a multiple of four.

The return makes the claim one about `mepc` as well.  That holds what a trap put there, the address
of its own instruction or of the next one, or what an instruction wrote, rounded down.  So neither
of the two is even by itself, and the step lemma says it of both.
-/
import HomeComputer.Memory.WordMemory
import HomeComputer.Proofs.Processor.CsrWrites

namespace HomeComputer

/-! ### Even words -/

namespace Word

theorem even_add {a b : Word} (ha : a.toNat % 2 = 0) (hb : b.toNat % 2 = 0) :
    (a + b).toNat % 2 = 0 := by
  rw [BitVec.toNat_add]
  omega

/-- A distance in half words is even, whatever its sign. -/
theorem even_ofSigned {n : Nat} (half : BitVec n) : (ofSigned (half ++ 0#1)).toNat % 2 = 0 := by
  have hbit : (ofSigned (half ++ 0#1)).getLsbD 0 = false := by
    rw [ofSigned_eq_signExtend, BitVec.getLsbD_signExtend, if_pos (Nat.succ_pos n),
      BitVec.getLsbD_append]
    rfl
  have hodd : (ofSigned (half ++ 0#1)).toNat % 2 ≠ 1 := fun h =>
    absurd (hbit.symm.trans (Nat.testBit_zero _ |>.trans (decide_eq_true h))) nofun
  omega

end Word

theorem CsrFile.toNat_aligned4 (w : Word) : (aligned4 w).toNat = w.toNat / 4 * 4 :=
  w.toNat_clear 2

/-! ### Where operations go on -/

/-- An operation that completes goes on where it was to go on anyway, at a distance from its own
address, at a register's value with the lowest bit cleared, or where a trap is to return to. -/
theorem next_cases {β : Type} [Bus β] {op : Operation} {insn : Instruction} {c c' : Context β}
    (h : perform op insn c = .completed c') :
    c'.next = c.next ∨ (∃ half, c'.next = c.pc + branchOffset half) ∨
      (∃ half, c'.next = c.pc + jumpOffset half) ∨ (∃ a : Word, c'.next = a &&& ~~~1#32) ∨
      c'.next = c.csr.mepc := by
  cases op with
  | jal =>
      cases insn with
      | j opcode rd half =>
          obtain rfl := Outcome.completed.inj h
          exact .inr (.inr (.inl ⟨half, rfl⟩))
      | _ => cases h
  | jalr =>
      cases insn with
      | i opcode rd funct3 rs1 imm =>
          obtain rfl := Outcome.completed.inj h
          exact .inr (.inr (.inr (.inl ⟨_, rfl⟩)))
      | _ => cases h
  | branch cond =>
      cases insn with
      | b opcode funct3 rs1 rs2 half =>
          obtain rfl := Outcome.completed.inj h
          split
          · exact .inr (.inl ⟨half, rfl⟩)
          · exact .inl rfl
      | _ => cases h
  | mret =>
      obtain rfl := Outcome.completed.inj h
      exact .inr (.inr (.inr (.inr rfl)))
  | csr a immediate =>
      cases insn with
      | i opcode rd funct3 rs1 imm =>
          simp only [perform, Execute.csr] at h
          split at h
          · cases h
          · split at h
            · cases h
            · obtain rfl := Outcome.completed.inj h
              exact .inl rfl
      | _ => cases h
  | lui | auipc | load _ | store _ | aluImm _ | alu _ | sub | mulDiv _ =>
      cases insn <;> cases h
      exact .inl rfl
  | fence | fenceI =>
      cases h
      exact .inl rfl
  | ecall | ebreak => cases h

namespace Hart

/-- The address of the next instruction is even, and so is the one that a return goes to. -/
structure EvenAddresses (h : Hart) : Prop where
  pc : h.pc.toNat % 2 = 0
  mepc : h.csr.mepc.toNat % 2 = 0

variable {β : Type} [Bus β] {h : Hart} {bus : β}

/-! ### Steps -/

/-- Without a trap a step goes on where its instruction says; every trap goes to the address in
`mtvec`, rounded down. -/
theorem pc_step_cases (h : Hart) (bus : β) :
    ((h.step bus).1.trap = .none ∧ (h.step bus).1.pc = (h.left bus).next) ∨
      ((h.step bus).1.trap ≠ .none ∧
        (h.step bus).1.pc = CsrFile.aligned4 (h.step bus).1.csr.mtvec) := by
  rcases step_cases h bus with ⟨c, hc, hstep⟩ | ⟨e, -, hstep⟩
  · rw [left_of_completed hc, hstep]
    cases hp : c.csr.pending? with
    | none =>
        have hdue : (h.adopt c).csr.pending? = none := hp
        rw [complete_of_none hdue]
        exact .inl ⟨rfl, rfl⟩
    | some line =>
        have hdue : (h.adopt c).csr.pending? = some line := hp
        rw [complete_of_some hdue]
        exact .inr ⟨nofun, rfl⟩
  · rw [hstep]
    exact .inr ⟨nofun, rfl⟩

theorem even_next_left (he : h.EvenAddresses) : (h.left bus).next.toNat % 2 = 0 := by
  have hfollowing : (h.pc + 4#32).toNat % 2 = 0 := Word.even_add he.pc rfl
  rcases step_cases h bus with ⟨c, hc, -⟩ | ⟨e, hraised, -⟩
  · rw [left_of_completed hc]
    obtain ⟨d, -, hperformed⟩ := exists_of_performWord hc
    rcases next_cases hperformed with hnext | ⟨half, hnext⟩ | ⟨half, hnext⟩ | ⟨a, hnext⟩ | hnext
    · rw [hnext]
      exact hfollowing
    · rw [hnext]
      exact Word.even_add he.pc (Word.even_ofSigned half)
    · rw [hnext]
      exact Word.even_add he.pc (Word.even_ofSigned half)
    · rw [hnext, show a &&& ~~~1#32 = a &&& ~~~BitVec.ofNat 32 (2 ^ 1 - 1) from rfl,
        Word.toNat_clear]
      omega
    · rw [hnext]
      exact he.mepc
  · rw [left_of_raised hraised]
    exact hfollowing

/-- An instruction that writes `mepc` leaves a multiple of four there. -/
theorem mepc_left_of_writesCsr {v : Word} (hw : h.WritesCsr bus .mepc v) :
    (h.left bus).csr.mepc = CsrFile.aligned4 v := by
  rw [hw.completes.2]
  rfl

theorem even_mepc_left (he : h.EvenAddresses) : (h.left bus).csr.mepc.toNat % 2 = 0 := by
  rcases h.left_cases bus with hkept | ⟨-, hleft⟩ | ⟨r, v, hw, hleft⟩
  · rw [hkept]
    exact he.mepc
  · rw [hleft]
    exact he.mepc
  · cases r with
    | mepc =>
        rw [mepc_left_of_writesCsr hw, CsrFile.toNat_aligned4]
        omega
    | _ =>
        rw [hleft]
        exact he.mepc

/-- A step keeps both addresses even. -/
theorem EvenAddresses.step (he : h.EvenAddresses) (bus : β) : (h.step bus).1.EvenAddresses := by
  have hnext : (h.left bus).next.toNat % 2 = 0 := even_next_left he
  have hmepc : (h.left bus).csr.mepc.toNat % 2 = 0 := even_mepc_left he
  refine ⟨?_, ?_⟩
  · rcases h.pc_step_cases bus with ⟨-, hpc⟩ | ⟨-, hpc⟩
    · rw [hpc]
      exact hnext
    · rw [hpc, CsrFile.toNat_aligned4]
      omega
  · rcases h.csr_step_cases bus with ⟨-, hcsr⟩ | ⟨line, -, -, hcsr⟩ | ⟨e, -, -, hcsr⟩
    · rw [hcsr]
      exact hmepc
    · rw [hcsr]
      exact hnext
    · rw [hcsr]
      exact he.pc

/-! ### Histories -/

theorem EvenAddresses.occurAll {s : Hart × β} (he : s.1.EvenAddresses)
    (history : List (Event β)) : (occurAll s history).1.EvenAddresses := by
  induction history generalizing s with
  | nil => exact he
  | cons a history ih =>
      refine ih ?_
      cases a with
      | step => exact he.step s.2
      | line number level => exact ⟨he.pc, he.mepc⟩
      | outside bus => exact he

/-- **Instruction addresses stay even.**  A hart whose `pc` and `mepc` are even has them even after
any history: any number of steps, through whatever memory and devices answer, with lines raised and
memory changed between them, and any content of `mtvec`.  What an instruction writes to `mepc` is
rounded down to a multiple of four, and stays there unless an interrupt comes after it; and every
trap goes to the address in `mtvec`, rounded down to one. -/
theorem instruction_addresses_even :
    (∀ (s : Hart × β) (history : List (Event β)), s.1.EvenAddresses →
      (occurAll s history).1.pc.toNat % 2 = 0 ∧
        (occurAll s history).1.csr.mepc.toNat % 2 = 0) ∧
    (∀ (h : Hart) (bus : β) (v : Word), h.WritesCsr bus .mepc v →
      (h.left bus).csr.mepc.toNat = v.toNat / 4 * 4 ∧
        ((h.step bus).1.trap = .none → (h.step bus).1.csr.mepc.toNat = v.toNat / 4 * 4)) ∧
    ∀ (h : Hart) (bus : β), (h.step bus).1.trap ≠ .none →
      (h.step bus).1.pc.toNat = (h.step bus).1.csr.mtvec.toNat / 4 * 4 := by
  refine ⟨?_, ?_, ?_⟩
  · intro s history he
    have hafter := he.occurAll history
    exact ⟨hafter.pc, hafter.mepc⟩
  · intro h bus v hw
    have hwritten : (h.left bus).csr.mepc.toNat = v.toNat / 4 * 4 := by
      rw [mepc_left_of_writesCsr hw, CsrFile.toNat_aligned4]
    refine ⟨hwritten, fun ht => ?_⟩
    rcases h.csr_step_cases bus with ⟨-, hcsr⟩ | ⟨line, htrap, -⟩ | ⟨e, htrap, -⟩
    · rw [hcsr]
      exact hwritten
    · cases htrap.symm.trans ht
    · cases htrap.symm.trans ht
  · intro h bus ht
    rcases h.pc_step_cases bus with ⟨hnone, -⟩ | ⟨-, hpc⟩
    · exact absurd hnone ht
    · rw [hpc, CsrFile.toNat_aligned4]

/-- A jump to an odd address in a register, a call there, and a handler that writes an odd address
to `mepc` and returns. -/
def crookedProgram : WordMemory :=
  (((({} : WordMemory).put 0x200#32 0x00028067#32).put 0x304#32 ecallWord).put 0x400#32
    0x34131073#32).put 0x404#32 mretWord

/-- The hart at the jump, two bytes past the start of a word, with an odd address of the handler. -/
def crookedHart : Hart where
  pc := 0x202#32
  registers := (Registers.zero.set 5#5 0x307#32).set 6#5 0x57b#32
  csr := { mtvec := 0x403#32, mepc := 0x1236#32 }

/-- At the call, two bytes past the start of a word again. -/
def crookedCall : Hart × WordMemory := crookedHart.step crookedProgram

/-- At the write to `mepc`, which holds the address of the call. -/
def crookedHandler : Hart × WordMemory := crookedCall.1.step crookedCall.2

/-- The call is at an even address, the handler at a multiple of four, and so is the address that
it writes and returns to. -/
theorem instruction_addresses_even_crooked :
    crookedHart.EvenAddresses ∧
    crookedCall.1.pc = 0x306#32 ∧ crookedCall.1.pc.toNat % 2 = 0 ∧
    crookedHandler.1.trap = .exception .environmentCall ∧ crookedHandler.1.pc.toNat = 0x400 ∧
    crookedHandler.1.WritesCsr crookedHandler.2 .mepc 0x57b#32 ∧
    (crookedHandler.1.left crookedHandler.2).csr.mepc.toNat = 0x578 ∧
    (occurAll (crookedHart, crookedProgram) (List.replicate 4 .step)).1.pc = 0x578#32 ∧
    (occurAll (crookedHart, crookedProgram) (List.replicate 4 .step)).1.pc.toNat % 2 = 0 := by
  have heven : crookedHart.EvenAddresses := ⟨by decide, by decide⟩
  obtain ⟨hhistory, hwritten, htrapped⟩ := instruction_addresses_even (β := WordMemory)
  have htrap : crookedHandler.1.trap = .exception .environmentCall := by decide +kernel
  have hwrites : crookedHandler.1.WritesCsr crookedHandler.2 .mepc 0x57b#32 :=
    ⟨.write, false, ⟨Instruction.ofWord .I 0x34131073#32, by decide +kernel⟩, by decide +kernel,
      by decide, by decide, by decide +kernel⟩
  refine ⟨heven, by decide +kernel, (hhistory (crookedHart, crookedProgram) [.step] heven).1, htrap,
    ?_, hwrites, (hwritten _ _ _ hwrites).1, by decide +kernel, (hhistory _ _ heven).1⟩
  have hhandler := htrapped crookedCall.1 crookedCall.2
    (by rw [show (crookedCall.1.step crookedCall.2).1.trap = _ from htrap]; exact nofun)
  exact hhandler.trans (by decide +kernel)

end Hart

end HomeComputer
