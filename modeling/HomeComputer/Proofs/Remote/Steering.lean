/-
What a debugger's commands do to the registers of a running program.

A program that runs has its registers to itself: `whileStopped` refuses to set any of them, and
most other commands do not come near them.  Two commands do.  One runs an instruction, which is
the program's own next one unless the command names another address; the other lets the hart run
on, which it does already.  Both may name an address, and neither asks whether the hart runs
before it moves the hart there.

`Undisturbed` is what a running program may expect of a command, and `registers_while_running`
says what each of them does: a command that names no address leaves the program undisturbed, and
one that does moves the hart to where it says.
-/
import HomeComputer.Proofs.Machine.Memory
import HomeComputer.Proofs.Remote.Dealing
import HomeComputer.Remote.LittleEndian

namespace HomeComputer

namespace Command

/-- The address that a command moves the hart to, if it names one. -/
def target? : Command → Option Word
  | resume addr | step addr => addr
  | _ => none

end Command

namespace Machine

variable {δ : Type} [DeviceAccess δ]

/-- From `before` to `after` no register has changed, nor the program counter, unless by the
one instruction that the program had come to. -/
def Undisturbed (before after : Machine δ) : Prop :=
  (after.hart.registers = before.hart.registers ∧ after.pc = before.pc) ∨
    after.hart = before.stepOnce.hart

/-! ### Single commands -/

omit [DeviceAccess δ] in
/-- What is only done to a hart that stands still is not done to one that runs. -/
theorem whileStopped_of_running {m : Machine δ} (hm : m.control.mode = .running)
    (change : Option (Machine δ)) : m.whileStopped change = (.error, m) := by
  have hrunning : m.control.isRunning = true := by
    unfold Controller.isRunning
    rw [hm]
    rfl
  unfold whileStopped
  cases change with
  | none => rfl
  | some changed => simp only [if_pos hrunning]

omit [DeviceAccess δ] in
theorem startingAt_eq (m : Machine δ) (addr : Option Word) :
    m.startingAt addr = { m with hart := { m.hart with pc := addr.getD m.pc } } := by
  cases addr with
  | none => rfl
  | some pc => rfl

section
variable [RegisterCodec]

theorem dispatch_readRegister (m : Machine δ) (number : Word) :
    (m.dispatch (.readRegister number)).2 = m := by
  simp only [dispatch]
  cases m.register? number with
  | none => rfl
  | some value => rfl

/-! ### Every command -/

/-- Of the commands that run no instruction only one that lets the hart run on elsewhere
touches the hart of a running program, and it moves the program counter alone. -/
theorem hart_dispatch_of_running {m : Machine δ} (hm : m.control.mode = .running) {c : Command}
    (hc : ∀ addr, c ≠ .step addr) :
    (m.dispatch c).2.hart = { m.hart with pc := c.target?.getD m.pc } := by
  cases c with
  | writeRegisters data =>
      show (m.whileStopped (m.setRegisters? data)).2.hart = m.hart
      rw [whileStopped_of_running hm]
  | writeRegister number value =>
      show (m.whileStopped (m.setRegister? number value)).2.hart = m.hart
      rw [whileStopped_of_running hm]
  | readRegister number => exact congrArg Machine.hart (dispatch_readRegister m number)
  | writeMemory addr data =>
      rw [dispatch_writeMemory]
      rfl
  | resume addr =>
      show (m.startingAt addr).hart = _
      rw [startingAt_eq]
      rfl
  | step addr => exact absurd rfl (hc addr)
  | stopReason | readRegisters | readMemory _ _ | insertBreakpoint _ | removeBreakpoint _
  | detach | kill | canned _ | malformed | unsupported => rfl

theorem dispatch_step (m : Machine δ) (addr : Option Word) :
    (m.dispatch (.step addr)).2 =
      stepOnce { m with hart := { m.hart with pc := addr.getD m.pc } } := by
  show (m.startingAt addr).stepOnce = _
  rw [startingAt_eq]

/-- **What commands do to the registers of a running program.**  One that names no address
leaves the program undisturbed, whatever else it asks for.  One that runs an instruction runs the
one at the address it names, and any other moves the program counter to that address and leaves
the hart alone. -/
theorem registers_while_running {m : Machine δ} (hm : m.control.mode = .running) (c : Command) :
    (c.target? = none → m.Undisturbed (m.dispatch c).2) ∧
    ((∀ addr, c ≠ .step addr) →
      (m.dispatch c).2.hart = { m.hart with pc := c.target?.getD m.pc }) ∧
    ∀ addr, c = .step addr →
      (m.dispatch c).2 = stepOnce { m with hart := { m.hart with pc := addr.getD m.pc } } := by
  refine ⟨?_, hart_dispatch_of_running hm, ?_⟩
  · intro htarget
    by_cases hstep : ∃ addr, c = .step addr
    · obtain ⟨addr, rfl⟩ := hstep
      obtain rfl : addr = none := htarget
      exact Or.inr (congrArg Machine.hart (dispatch_step m none))
    · have hhart := hart_dispatch_of_running hm fun addr h => hstep ⟨addr, h⟩
      rw [htarget] at hhart
      exact Or.inl ⟨congrArg Hart.registers hhart, congrArg Hart.pc hhart⟩
  · rintro addr rfl
    exact dispatch_step m addr

end

/-- The standard computer runs; a debugger's attempts to set a register, and to set all of them
to what would be accepted if it stood still, do not reach the program. -/
theorem registers_while_running_refused :
    let m : Machine Devices := (fresh {} {}).go
    m.control.mode = .running ∧
    m.Undisturbed (m.dispatch (.writeRegister 5#32 1#32)).2 ∧
    (m.setRegisters? (List.replicate 132 0xff#8)).isSome = true ∧
    m.Undisturbed (m.dispatch (.writeRegisters (List.replicate 132 0xff#8))).2 := by
  intro m
  have hm : m.control.mode = .running := rfl
  refine ⟨hm, ?_, ?_, ?_⟩
  · exact (registers_while_running hm (.writeRegister 5#32 1#32)).1 rfl
  · decide
  · exact (registers_while_running hm (.writeRegisters (List.replicate 132 0xff#8))).1 rfl

/-- A client that lets the running computer run on at an address moves it there, although it has
run no instruction that leads there. -/
theorem resume_moves_running :
    let m : Machine Devices := (fresh {} {}).go
    m.control.mode = .running ∧
    Command.parse (Text.ascii "c80000010") = .resume (some 0x80000010#32) ∧
    (m.dispatch (.resume (some 0x80000010#32))).2.pc = 0x80000010#32 ∧
    ¬m.Undisturbed (m.dispatch (.resume (some 0x80000010#32))).2 := by
  intro m
  have hpc : (m.dispatch (.resume (some 0x80000010#32))).2.pc = 0x80000010#32 := rfl
  have hnext : m.stepOnce.pc = 0#32 := by decide
  refine ⟨rfl, by decide, hpc, ?_⟩
  rintro (⟨-, hsame⟩ | hstepped)
  · exact absurd (hpc.symm.trans hsame) (by decide)
  · have hmoved := hpc.symm.trans ((congrArg Hart.pc hstepped).trans hnext)
    exact absurd hmoved (by decide)

end Machine

end HomeComputer
