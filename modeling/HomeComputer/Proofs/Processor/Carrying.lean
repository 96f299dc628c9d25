/-
A step carried over to another bus.

All that a hart does with its bus is to read and write it, at addresses that the alignment policy
may have moved.  A function between buses that keeps the answers of reads and follows reads and
writes (`Carries`) is therefore followed by whole steps, as long as both buses put the access of
the word that is executed at the same place (`Hart.step_carry`).  The fetch needs no such proviso:
it rounds its address down by itself.

An operation is asked for its access before it runs (`Execute.access?`); those that have none are
carried over as they stand, one lemma for each.
-/
import HomeComputer.Proofs.Processor.Interrupts
import HomeComputer.Proofs.Processor.LoadsAndStores

namespace HomeComputer

variable {β γ : Type}

/-! ### Accesses -/

/-- Reads are answered alike by a bus and its image, and `f` follows reads and writes. -/
structure Carries [Bus β] [Bus γ] (f : β → γ) : Prop where
  read : ∀ bus addr, Bus.read (f bus) addr = ((Bus.read bus addr).1, f (Bus.read bus addr).2)
  write : ∀ bus addr value lanes,
    Bus.write (f bus) addr value lanes = f (Bus.write bus addr value lanes)

namespace Carries

variable [Bus β] [Bus γ] {f : β → γ}

theorem readWord (hf : Carries f) (bus : β) (addr : Word) :
    Access.readWord (f bus) addr =
      ((Access.readWord bus addr).1, f (Access.readWord bus addr).2) := by
  simp only [Access.readWord, hf.read]

theorem fetch (hf : Carries f) (bus : β) (pc : Word) :
    Access.fetch (f bus) pc = ((Access.fetch bus pc).1, f (Access.fetch bus pc).2) :=
  hf.readWord bus pc.aligned

theorem load (hf : Carries f) {bus : β} {addr : Word} {w : Width}
    (hplace : (Bus.alignment (f bus)).place addr w = (Bus.alignment bus).place addr w) :
    Access.load (f bus) addr w = ((Access.load bus addr w).1, f (Access.load bus addr w).2) := by
  unfold Access.load
  simp only [hplace, hf.readWord]
  split
  · rfl
  · rfl

theorem store (hf : Carries f) {bus : β} {addr : Word} (value : Word) {w : Width}
    (hplace : (Bus.alignment (f bus)).place addr w = (Bus.alignment bus).place addr w) :
    Access.store (f bus) addr value w = f (Access.store bus addr value w) := by
  unfold Access.store
  simp only [hplace, hf.write]
  split
  · rfl
  · rfl

end Carries

/-! ### Operations -/

/-- The context with another bus in the place of its own. -/
def Context.carry (f : β → γ) (c : Context β) : Context γ :=
  { pc := c.pc, next := c.next, registers := c.registers, csr := c.csr, bus := f c.bus }

def Outcome.carry (f : β → γ) : Outcome β → Outcome γ
  | .completed c => .completed (c.carry f)
  | .raised e c => .raised e (c.carry f)

/-- What is done on one bus is done on the other. -/
def Carried (f : β → γ) (g : Instruction → Context β → Outcome β)
    (g' : Instruction → Context γ → Outcome γ) : Prop :=
  ∀ (insn : Instruction) (c : Context β), g' insn (c.carry f) = (g insn c).carry f

namespace Execute

/-- The address and the width of the access that an operation makes, if it makes one. -/
def access? : Operation → Instruction → Context β → Option (Word × Width)
  | .load k, .i _ _ _ rs1 imm, c => some (c.get rs1 + signedImmediate imm, k.width)
  | .store w, .s _ _ rs1 _ imm, c => some (c.get rs1 + signedImmediate imm, w)
  | _, _, _ => none

variable (f : β → γ)

theorem carried_lui : Carried f lui lui := by
  intro insn c
  cases insn <;> rfl

theorem carried_auipc : Carried f auipc auipc := by
  intro insn c
  cases insn <;> rfl

theorem carried_jal : Carried f jal jal := by
  intro insn c
  cases insn <;> rfl

theorem carried_jalr : Carried f jalr jalr := by
  intro insn c
  cases insn <;> rfl

theorem carried_branch (cond : Condition) : Carried f (branch cond) (branch cond) := by
  intro insn c
  cases insn with
  | b opcode funct3 rs1 rs2 half =>
      simp only [branch, Outcome.carry, apply_ite (Context.carry f)]
      rfl
  | _ => rfl

theorem carried_withImmediate (g : Word → Word → Word) :
    Carried f (withImmediate g) (withImmediate g) := by
  intro insn c
  cases insn <;> rfl

theorem carried_withRegisters (g : Word → Word → Word) :
    Carried f (withRegisters g) (withRegisters g) := by
  intro insn c
  cases insn <;> rfl

theorem carried_csr (a : CsrAction) (immediate : Bool) :
    Carried f (csr a immediate) (csr a immediate) := by
  intro insn c
  cases insn with
  | i opcode rd funct3 rs1 imm =>
      simp only [csr, Context.carry, Context.get]
      split
      · rfl
      · split
        · rfl
        · rfl
  | _ => rfl

section

variable [Bus β] [Bus γ] {f : β → γ}

theorem carry_load (hf : Carries f) {k : LoadKind} {insn : Instruction} {c : Context β}
    (hplace : ∀ addr w, access? (.load k) insn c = some (addr, w) →
      (Bus.alignment (f c.bus)).place addr w = (Bus.alignment c.bus).place addr w) :
    load k insn (c.carry f) = (load k insn c).carry f := by
  cases insn with
  | i opcode rd funct3 rs1 imm =>
      have hload : Access.load (c.carry f).bus ((c.carry f).get rs1 + signedImmediate imm) k.width =
          _ := hf.load (hplace _ _ rfl)
      simp only [load, hload]
      rfl
  | _ => rfl

theorem carry_store (hf : Carries f) {w : Width} {insn : Instruction} {c : Context β}
    (hplace : ∀ addr width, access? (.store w) insn c = some (addr, width) →
      (Bus.alignment (f c.bus)).place addr width = (Bus.alignment c.bus).place addr width) :
    store w insn (c.carry f) = (store w insn c).carry f := by
  cases insn with
  | s opcode funct3 rs1 rs2 imm =>
      have hstore : Access.store (c.carry f).bus ((c.carry f).get rs1 + signedImmediate imm)
          ((c.carry f).get rs2) w = _ := hf.store (c.get rs2) (hplace _ _ rfl)
      simp only [store, hstore]
      rfl
  | _ => rfl

end

end Execute

/-- An operation does the same on both buses, if they put its access at the same place. -/
theorem perform_carry [Bus β] [Bus γ] {f : β → γ} (hf : Carries f) {op : Operation}
    {insn : Instruction} {c : Context β}
    (hplace : ∀ addr w, Execute.access? op insn c = some (addr, w) →
      (Bus.alignment (f c.bus)).place addr w = (Bus.alignment c.bus).place addr w) :
    perform op insn (c.carry f) = (perform op insn c).carry f := by
  cases op with
  | lui => exact Execute.carried_lui f insn c
  | auipc => exact Execute.carried_auipc f insn c
  | jal => exact Execute.carried_jal f insn c
  | jalr => exact Execute.carried_jalr f insn c
  | branch cond => exact Execute.carried_branch f cond insn c
  | load k => exact Execute.carry_load hf hplace
  | store w => exact Execute.carry_store hf hplace
  | aluImm o => exact Execute.carried_withImmediate f o.apply insn c
  | alu o => exact Execute.carried_withRegisters f o.apply insn c
  | sub => exact Execute.carried_withRegisters f (· - ·) insn c
  | mulDiv o => exact Execute.carried_withRegisters f o.apply insn c
  | csr a immediate => exact Execute.carried_csr f a immediate insn c
  | fence | fenceI | ecall | ebreak | mret => rfl

namespace Hart

/-! ### Steps -/

/-- The word `raw` makes this hart load or store so much at `addr`: the hart is fitted with the base
set, and the word is one of the manual's loads or stores, with the address that its fields name. -/
def Accesses (h : Hart) (raw addr : Word) (w : Width) : Prop :=
  Extension.i ∈ h.isa ∧
    ((∃ isSigned, Manual.Loads raw w isSigned) ∧ addr = h.loadAddress raw ∨
      Manual.Stores raw w ∧ addr = h.storeAddress raw)

/-- The access of an operation is that of the word it was decoded from. -/
theorem accesses_of_access? {h : Hart} {raw : Word} {e : Extension} (he : e ∈ h.isa)
    {op : Operation} (hop : e.operation? raw = some op) {bus : β} {addr : Word} {w : Width}
    (haccess : Execute.access? op (Instruction.ofWord op.format raw)
      (Context.start h.pc h.registers h.csr bus) = some (addr, w)) :
    h.Accesses raw addr w := by
  cases op with
  | load k =>
      obtain ⟨rfl, hloads⟩ := Extension.loads_of_operation? hop
      cases haccess
      exact ⟨he, .inl ⟨hloads, (h.loadAddress_eq raw).symm⟩⟩
  | store width =>
      obtain ⟨rfl, hstores⟩ := Extension.stores_of_operation? hop
      cases haccess
      exact ⟨he, .inr ⟨hstores, (h.storeAddress_eq raw).symm⟩⟩
  | _ => cases haccess

variable [Bus β] [Bus γ] {f : β → γ}

theorem performWord_carry (hf : Carries f) {h : Hart} {raw : Word} {bus : β}
    (hplace : ∀ addr w, h.Accesses raw addr w →
      (Bus.alignment (f bus)).place addr w = (Bus.alignment bus).place addr w) :
    h.performWord raw (f bus) = (h.performWord raw bus).carry f := by
  unfold performWord
  cases hd : h.decode? raw with
  | none => rfl
  | some d =>
      obtain ⟨e, he, op, hop, rfl⟩ := Extension.claims_of_decodeBy hd
      exact perform_carry hf fun addr w haccess =>
        hplace addr w (accesses_of_access? he hop haccess)

/-- **A step on the image of a bus is the image of the step**, if both put the access of the fetched
word at the same place. -/
theorem step_carry (hf : Carries f) (h : Hart) (bus : β)
    (hplace : ∀ addr w, h.Accesses (Access.fetch bus h.pc).1 addr w →
      (Bus.alignment (f (Access.fetch bus h.pc).2)).place addr w =
        (Bus.alignment (Access.fetch bus h.pc).2).place addr w) :
    h.step (f bus) = ((h.step bus).1, f (h.step bus).2) := by
  have hperformed := performWord_carry hf hplace
  unfold step
  simp only [hf.fetch, hperformed]
  cases h.performWord (Access.fetch bus h.pc).1 (Access.fetch bus h.pc).2 with
  | completed c => rfl
  | raised e c => rfl

end Hart

end HomeComputer
