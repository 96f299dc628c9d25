/-
What one step of a hart can do.

A step fetches one word and performs it.  Either the operation completes, and the hart
goes on from the context that it left, or it raises an exception, and the hart enters the
trap.  `Hart.step_cases` says this once; whatever holds of a step is read off its two
cases, and nobody else looks inside `Hart.step`.

What makes the second case simple is that operations are atomic: one that raises an
exception has touched neither registers nor control registers nor the bus.  `perform`
hands over the context it left in either case, so this is a statement about each of the
operations (`perform_raised`), and the only one with anything to prove is the access to a
control register, which may have read the old content before it finds that the new one
cannot be written.
-/
import HomeComputer.Processor.Hart

namespace HomeComputer

variable {β : Type}

/-! ### Operations are atomic -/

/-- Whatever is raised leaves the context as it was found. -/
def Atomic (f : Instruction → Context β → Outcome β) : Prop :=
  ∀ (insn : Instruction) (c c' : Context β) (e : Exception), f insn c = .raised e c' → c' = c

namespace Execute

theorem atomic_lui : Atomic (β := β) lui := by
  intro insn c c' e h
  cases insn <;> simp_all [lui]

theorem atomic_auipc : Atomic (β := β) auipc := by
  intro insn c c' e h
  cases insn <;> simp_all [auipc]

theorem atomic_jal : Atomic (β := β) jal := by
  intro insn c c' e h
  cases insn <;> simp_all [jal]

theorem atomic_jalr : Atomic (β := β) jalr := by
  intro insn c c' e h
  cases insn <;> simp_all [jalr]

theorem atomic_branch (cond : Condition) : Atomic (β := β) (branch cond) := by
  intro insn c c' e h
  cases insn <;> simp_all [branch]

theorem atomic_load [Bus β] (k : LoadKind) : Atomic (β := β) (load k) := by
  intro insn c c' e h
  cases insn <;> simp_all [load]

theorem atomic_store [Bus β] (w : Width) : Atomic (β := β) (store w) := by
  intro insn c c' e h
  cases insn <;> simp_all [store]

theorem atomic_withImmediate (f : Word → Word → Word) : Atomic (β := β) (withImmediate f) := by
  intro insn c c' e h
  cases insn <;> simp_all [withImmediate]

theorem atomic_withRegisters (f : Word → Word → Word) : Atomic (β := β) (withRegisters f) := by
  intro insn c c' e h
  cases insn <;> simp_all [withRegisters]

/-- A control register that was read but cannot be written has not been touched, and
neither has the register that was to hold its old content. -/
theorem atomic_csr (a : CsrAction) (immediate : Bool) : Atomic (β := β) (csr a immediate) := by
  intro insn c c' e h
  cases insn with
  | i opcode rd funct3 rs1 imm =>
      simp only [csr] at h
      split at h
      · simp_all
      · split at h
        · simp_all
        · simp at h
  | _ => simp_all [csr]

end Execute

/-- **An operation that raises an exception has changed nothing.** -/
theorem perform_raised [Bus β] (op : Operation) : Atomic (β := β) (perform op) := by
  intro insn c c' e h
  cases op with
  | lui => exact Execute.atomic_lui insn c c' e h
  | auipc => exact Execute.atomic_auipc insn c c' e h
  | jal => exact Execute.atomic_jal insn c c' e h
  | jalr => exact Execute.atomic_jalr insn c c' e h
  | branch cond => exact Execute.atomic_branch cond insn c c' e h
  | load k => exact Execute.atomic_load k insn c c' e h
  | store w => exact Execute.atomic_store w insn c c' e h
  | aluImm o => exact Execute.atomic_withImmediate o.apply insn c c' e h
  | alu o => exact Execute.atomic_withRegisters o.apply insn c c' e h
  | sub => exact Execute.atomic_withRegisters (· - ·) insn c c' e h
  | mulDiv o => exact Execute.atomic_withRegisters o.apply insn c c' e h
  | csr a immediate => exact Execute.atomic_csr a immediate insn c c' e h
  | fence | fenceI | mret => simp [perform] at h
  | ecall | ebreak => simp_all [perform]

namespace Hart

/-- A word that raises an exception leaves the context it was started in. -/
theorem performWord_raised [Bus β] {h : Hart} {raw : Word} {bus : β} {e : Exception}
    {c : Context β} (hr : h.performWord raw bus = .raised e c) :
    c = Context.start h.pc h.registers h.csr bus := by
  unfold performWord at hr
  cases hd : h.decode? raw with
  | none => simp_all
  | some d =>
      rw [hd] at hr
      exact perform_raised _ _ _ _ _ hr

/-! ### The two ways a step can end -/

/-- A step ends as its word does: completed, with the hart going on from what the word
left, or in the trap of an exception, with everything as it was before the word. -/
theorem step_cases [Bus β] (h : Hart) (bus : β) :
    (∃ c, h.performWord (Access.fetch bus h.pc).1 (Access.fetch bus h.pc).2 = .completed c ∧
      h.step bus = ((h.adopt c).complete c.next, c.bus)) ∨
    (∃ e, h.performWord (Access.fetch bus h.pc).1 (Access.fetch bus h.pc).2 =
        .raised e (Context.start h.pc h.registers h.csr (Access.fetch bus h.pc).2) ∧
      h.step bus = ({ h with csr := countCycle h.csr, trap := .none }.takeTrap (.exception e) h.pc
        (trapValue (Access.fetch bus h.pc).1 h.pc e), (Access.fetch bus h.pc).2)) := by
  cases hp : h.performWord (Access.fetch bus h.pc).1 (Access.fetch bus h.pc).2 with
  | completed c => exact Or.inl ⟨c, rfl, by simp only [step, hp]⟩
  | raised e c =>
      have hc := performWord_raised hp
      subst hc
      exact Or.inr ⟨e, rfl, by simp only [step, hp]; rfl⟩

/-- Where no interrupt is due, the hart goes on at `next`.  Completing an instruction does not
change which one is. -/
theorem complete_of_none {h : Hart} {next : Word} (hp : h.csr.pending? = none) :
    h.complete next = h.retire next := by
  have hretired : (h.retire next).csr.pending? = none := hp
  simp only [complete, hretired]

/-- Where one is due, the hart enters its handler, to come back to `next`. -/
theorem complete_of_some {h : Hart} {next : Word} {line : Byte}
    (hp : h.csr.pending? = some line) :
    h.complete next = (h.retire next).takeTrap (.interrupt line) next 0#32 := by
  have hretired : (h.retire next).csr.pending? = some line := hp
  simp only [complete, hretired]

/-- An instruction that completes ends in no exception. -/
theorem trap_complete_ne_exception {h : Hart} (next : Word) (e : Exception)
    (hn : h.trap = .none) : (h.complete next).trap ≠ .exception e := by
  cases hp : h.csr.pending? with
  | none =>
      rw [complete_of_none hp]
      simp [retire, hn]
  | some line =>
      rw [complete_of_some hp]
      simp [takeTrap, Trap.cause?]

theorem registers_complete (h : Hart) (next : Word) :
    (h.complete next).registers = h.registers := by
  cases hp : h.csr.pending? with
  | none => rw [complete_of_none hp]; rfl
  | some line => rw [complete_of_some hp]; rfl

theorem isa_complete (h : Hart) (next : Word) : (h.complete next).isa = h.isa := by
  cases hp : h.csr.pending? with
  | none => rw [complete_of_none hp]; rfl
  | some line => rw [complete_of_some hp]; rfl

end Hart

end HomeComputer
