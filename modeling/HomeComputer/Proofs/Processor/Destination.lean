/-
Where instructions put their results.

An instruction that completes has changed one register at most and the bus.  On the bus it is a
load or a store, if it is one, that left what is there now (`Execute.busAfter`); the register takes
more care.  The register file refuses a write to number 0, but of a larger number it looks at the
low five bits only: 32 would name slot 0 as well.  That zero stays in that slot is therefore up to
those who write, all of whom have to bring numbers below 32.

Instructions do.  An operation that completes has assigned to the register that its fields name
as destination, or to none (`delivers_perform`), and the fields that a word is cut into name five
bits of the word.  So a step assigns to one register at most, and knows it by a number that fits.
-/
import HomeComputer.Proofs.Isa.Decoding
import HomeComputer.Proofs.Processor.Step
import HomeComputer.Proofs.Word

namespace HomeComputer

/-! ### Assignments -/

/-- A write to the register file: the number of eight bits that names a register, and the value. -/
structure Assignment where
  number : Byte
  value : Word
  deriving DecidableEq, Repr

namespace Registers

/-- The file after assignments, one after the other. -/
def assignAll (x : Registers) (writes : List Assignment) : Registers :=
  writes.foldl (fun x w => x.assign w.number w.value) x

theorem assign_zero (x : Registers) (v : Word) : x.assign 0#8 v = x := rfl

/-- A number below 32 does not reach slot 0. -/
theorem get_zero_assign (x : Registers) {number : Byte} (hnumber : number.toNat < 32) (v : Word) :
    (x.assign number v).get 0#5 = x.get 0#5 := by
  unfold assign
  by_cases hzero : number = 0#8
  · rw [if_pos hzero]
  · have hslot : number.toNat % 32 ≠ 0 := by
      rw [Nat.mod_eq_of_lt hnumber]
      exact fun h => hzero (BitVec.eq_of_toNat_eq h)
    rw [if_neg hzero]
    exact Vector.getElem_set_ne (Nat.mod_lt _ (by decide)) (by decide) hslot

/-- The smallest number that reaches it. -/
example : (zero.assign 32#8 1#32).get 0#5 = 1#32 := by decide

theorem get_zero_assignAll (x : Registers) {writes : List Assignment}
    (hwrites : ∀ w ∈ writes, w.number.toNat < 32) :
    (x.assignAll writes).get 0#5 = x.get 0#5 := by
  induction writes generalizing x with
  | nil => rfl
  | cons w writes ih =>
      obtain ⟨hw, hwrites⟩ := List.forall_mem_cons.mp hwrites
      exact (ih (x.assign w.number w.value) hwrites).trans (x.get_zero_assign hw w.value)

theorem toList_eq_cons (x : Registers) : x.toList = x.get 0#5 :: x.toList.tail := by
  have hlength := x.length_toList
  have hhead : x.toList[0]? = some (x.get 0#5) := by
    unfold toList get
    rw [Vector.getElem?_toList]
    rfl
  cases hlist : x.toList with
  | nil =>
      rw [hlist] at hlength
      cases hlength
  | cons v rest =>
      rw [hlist] at hhead
      obtain rfl : v = x.get 0#5 := Option.some.inj hhead
      rfl

/-- Assignments to number 0 are all dropped. -/
theorem assignAll_of_zero (x : Registers) {writes : List Assignment}
    (hwrites : ∀ w ∈ writes, w.number = 0#8) : x.assignAll writes = x := by
  induction writes generalizing x with
  | nil => rfl
  | cons w writes ih =>
      obtain ⟨hw, hwrites⟩ := List.forall_mem_cons.mp hwrites
      show (x.assign w.number w.value).assignAll writes = x
      rw [hw, assign_zero, ih x hwrites]

end Registers

/-! ### Operations -/

/-- The destination that fields name, if they name one. -/
def Instruction.rd? : Instruction → Option Reg
  | .r _ rd _ _ _ _ | .i _ rd _ _ _ | .u _ rd _ | .j _ rd _ => some rd
  | .s _ _ _ _ _ | .b _ _ _ _ _ => none

theorem Instruction.rd?_ofWord {f : Format} {w : Word} {rd : Reg}
    (h : (Instruction.ofWord f w).rd? = some rd) : rd = w.rd := by
  cases f <;> cases h <;> rfl

variable {β : Type}

/-- The bus after an operation that completes. -/
def Execute.busAfter [Bus β] : Operation → Instruction → Context β → β
  | .load k, .i _ _ _ rs1 imm, c =>
      (Access.load c.bus (c.get rs1 + signedImmediate imm) k.width).2
  | .store w, .s _ _ rs1 rs2 imm, c =>
      Access.store c.bus (c.get rs1 + signedImmediate imm) (c.get rs2) w
  | _, _, c => c.bus

/-- What completes has assigned to the destination, or to no register at all, and leaves the bus
as given. -/
def Delivers (f : Instruction → Context β → Outcome β) (bus : Instruction → Context β → β) :
    Prop :=
  ∀ (insn : Instruction) (c c' : Context β), f insn c = .completed c' →
    c'.bus = bus insn c ∧
      (c'.registers = c.registers ∨
        ∃ rd v, insn.rd? = some rd ∧ c'.registers = c.registers.set rd v)

namespace Execute

theorem delivers_lui : Delivers (β := β) lui (fun _ c => c.bus) := by
  intro insn c c' h
  cases insn with
  | u opcode rd upper =>
      obtain rfl := Outcome.completed.inj h
      exact ⟨rfl, Or.inr ⟨rd, _, rfl, rfl⟩⟩
  | _ => cases h

theorem delivers_auipc : Delivers (β := β) auipc (fun _ c => c.bus) := by
  intro insn c c' h
  cases insn with
  | u opcode rd upper =>
      obtain rfl := Outcome.completed.inj h
      exact ⟨rfl, Or.inr ⟨rd, _, rfl, rfl⟩⟩
  | _ => cases h

theorem delivers_jal : Delivers (β := β) jal (fun _ c => c.bus) := by
  intro insn c c' h
  cases insn with
  | j opcode rd half =>
      obtain rfl := Outcome.completed.inj h
      exact ⟨rfl, Or.inr ⟨rd, _, rfl, rfl⟩⟩
  | _ => cases h

theorem delivers_jalr : Delivers (β := β) jalr (fun _ c => c.bus) := by
  intro insn c c' h
  cases insn with
  | i opcode rd funct3 rs1 imm =>
      obtain rfl := Outcome.completed.inj h
      exact ⟨rfl, Or.inr ⟨rd, _, rfl, rfl⟩⟩
  | _ => cases h

theorem delivers_branch (cond : Condition) :
    Delivers (β := β) (branch cond) (fun _ c => c.bus) := by
  intro insn c c' h
  cases insn with
  | b opcode funct3 rs1 rs2 half =>
      obtain rfl := Outcome.completed.inj h
      split
      · exact ⟨rfl, Or.inl rfl⟩
      · exact ⟨rfl, Or.inl rfl⟩
  | _ => cases h

theorem delivers_load [Bus β] (k : LoadKind) : Delivers (β := β) (load k) (busAfter (.load k)) := by
  intro insn c c' h
  cases insn with
  | i opcode rd funct3 rs1 imm =>
      obtain rfl := Outcome.completed.inj h
      exact ⟨rfl, Or.inr ⟨rd, _, rfl, rfl⟩⟩
  | _ => cases h

theorem delivers_store [Bus β] (w : Width) : Delivers (β := β) (store w) (busAfter (.store w)) := by
  intro insn c c' h
  cases insn with
  | s opcode funct3 rs1 rs2 imm =>
      obtain rfl := Outcome.completed.inj h
      exact ⟨rfl, Or.inl rfl⟩
  | _ => cases h

theorem delivers_withImmediate (f : Word → Word → Word) :
    Delivers (β := β) (withImmediate f) (fun _ c => c.bus) := by
  intro insn c c' h
  cases insn with
  | i opcode rd funct3 rs1 imm =>
      obtain rfl := Outcome.completed.inj h
      exact ⟨rfl, Or.inr ⟨rd, _, rfl, rfl⟩⟩
  | _ => cases h

theorem delivers_withRegisters (f : Word → Word → Word) :
    Delivers (β := β) (withRegisters f) (fun _ c => c.bus) := by
  intro insn c c' h
  cases insn with
  | r opcode rd funct3 rs1 rs2 funct7 =>
      obtain rfl := Outcome.completed.inj h
      exact ⟨rfl, Or.inr ⟨rd, _, rfl, rfl⟩⟩
  | _ => cases h

theorem delivers_csr (a : CsrAction) (immediate : Bool) :
    Delivers (β := β) (csr a immediate) (fun _ c => c.bus) := by
  intro insn c c' h
  cases insn with
  | i opcode rd funct3 rs1 imm =>
      simp only [csr] at h
      split at h
      · cases h
      · split at h
        · cases h
        · obtain rfl := Outcome.completed.inj h
          exact ⟨rfl, Or.inr ⟨rd, _, rfl, rfl⟩⟩
  | _ => cases h

end Execute

/-- Every operation that completes has assigned to its destination, or to no register, and only
loads and stores have touched the bus. -/
theorem delivers_perform [Bus β] (op : Operation) :
    Delivers (β := β) (perform op) (Execute.busAfter op) := by
  intro insn c c' h
  cases op with
  | lui => exact Execute.delivers_lui insn c c' h
  | auipc => exact Execute.delivers_auipc insn c c' h
  | jal => exact Execute.delivers_jal insn c c' h
  | jalr => exact Execute.delivers_jalr insn c c' h
  | branch cond => exact Execute.delivers_branch cond insn c c' h
  | load k => exact Execute.delivers_load k insn c c' h
  | store w => exact Execute.delivers_store w insn c c' h
  | aluImm o => exact Execute.delivers_withImmediate o.apply insn c c' h
  | alu o => exact Execute.delivers_withRegisters o.apply insn c c' h
  | sub => exact Execute.delivers_withRegisters (· - ·) insn c c' h
  | mulDiv o => exact Execute.delivers_withRegisters o.apply insn c c' h
  | csr a immediate => exact Execute.delivers_csr a immediate insn c c' h
  | fence | fenceI | mret =>
      obtain rfl := Outcome.completed.inj h
      exact ⟨rfl, Or.inl rfl⟩
  | ecall | ebreak => cases h

namespace Hart

variable [Bus β]

/-- A word that completes has assigned to the register it names, or to none. -/
theorem registers_performWord {h : Hart} {raw : Word} {bus : β} {c : Context β}
    (hc : h.performWord raw bus = .completed c) :
    c.registers = h.registers ∨ ∃ v, c.registers = h.registers.set raw.rd v := by
  unfold performWord at hc
  cases hd : h.decode? raw with
  | none =>
      rw [hd] at hc
      cases hc
  | some d =>
      rw [hd] at hc
      obtain ⟨e, -, op, -, rfl⟩ := Extension.claims_of_decodeBy hd
      rcases (delivers_perform op _ _ _ hc).2 with hkept | ⟨rd, v, hrd, hset⟩
      · exact Or.inl hkept
      · rw [Instruction.rd?_ofWord hrd] at hset
        exact Or.inr ⟨v, hset⟩

/-- A step assigns at most once, to the register that the fetched word names. -/
theorem registers_step (h : Hart) (bus : β) :
    ∃ writes : List Assignment, writes.length ≤ 1 ∧
      (∀ w ∈ writes, w.number = (Access.fetch bus h.pc).1.rd.setWidth 8) ∧
      (h.step bus).1.registers = h.registers.assignAll writes := by
  rcases step_cases h bus with ⟨c, hperformed, hstep⟩ | ⟨e, -, hstep⟩
  · have hregisters : (h.step bus).1.registers = c.registers := by
      rw [hstep, registers_complete]
      rfl
    rw [hregisters]
    rcases registers_performWord hperformed with hkept | ⟨v, hset⟩
    · exact ⟨[], Nat.zero_le 1, nofun, hkept⟩
    · refine ⟨[⟨(Access.fetch bus h.pc).1.rd.setWidth 8, v⟩], Nat.le_refl 1, ?_, hset⟩
      intro w hw
      rw [List.mem_singleton.mp hw]
  · refine ⟨[], Nat.zero_le 1, nofun, ?_⟩
    rw [hstep]
    rfl

end Hart

/-- The number of a destination is five bits of the word, and so below 32. -/
theorem Word.toNat_rd (w : Word) : (w.rd.setWidth 8).toNat = w.toNat / 2 ^ 7 % 2 ^ 5 := by
  have hrd : w.rd.toNat = w.toNat / 2 ^ 7 % 2 ^ 5 := w.toNat_bits 7 5
  have hlt : w.rd.toNat < 2 ^ 8 := Nat.lt_of_lt_of_le w.rd.isLt (by decide)
  rw [BitVec.toNat_setWidth, Nat.mod_eq_of_lt hlt, hrd]

end HomeComputer
