/-
Register 0 reads zero for ever.

Nothing is wired: slot 0 of the register file is a slot like any other, and holds zero because
it begins so and nobody who writes to the file reaches it.  Three write to it.  An instruction
assigns to the register that its word names with five bits.  A debugger's command assigns to the
registers it lists, by numbers it has checked or counted.  A reset clears all of them.  So the
invariant needs only that all numbers are below 32 (`get_zero_assignAll`).

`Happening` is what may come between two looks at the registers, and a history is a list of them.
-/
import HomeComputer.Proofs.Image.Loading
import HomeComputer.Proofs.Machine.NewBreakpoints
import HomeComputer.Proofs.Processor.Destination
import HomeComputer.Proofs.Remote.RegisterBytes
import HomeComputer.Proofs.Remote.Steering

namespace HomeComputer

/-! ### What a debugger writes -/

section
variable [RegisterCodec]

/-- The writes that a command lists. -/
def Command.writes : Command → List Assignment
  | writeRegister number value =>
      if number.toNat < 32 then [⟨number.setWidth 8, value⟩] else []
  | writeRegisters data =>
      match RegisterCodec.deserialize data with
      | none => []
      | some r => r.general.toList.zipIdx.map fun w => ⟨BitVec.ofNat 8 w.2, w.1⟩
  | _ => []

/-- A command knows every register by a number below 32. -/
theorem Command.number_lt_of_writes (c : Command) : ∀ w ∈ c.writes, w.number.toNat < 32 := by
  cases c with
  | writeRegister number value =>
      simp only [writes]
      split
      · next hnumber =>
          intro w hw
          rw [List.mem_singleton.mp hw, BitVec.toNat_setWidth]
          exact Nat.lt_of_le_of_lt (Nat.mod_le _ _) hnumber
      · exact nofun
  | writeRegisters data =>
      simp only [writes]
      split
      · exact nofun
      · next r hr =>
          intro w hw
          obtain ⟨⟨v, i⟩, hmem, rfl⟩ := List.mem_map.mp hw
          have hi : i < r.general.toList.length := (List.mem_zipIdx' hmem).1
          rw [Vector.length_toList] at hi
          show (BitVec.ofNat 8 i).toNat < 32
          rw [BitVec.toNat_ofNat, Nat.mod_eq_of_lt (by omega)]
          exact hi
  | _ => exact nofun

end

namespace Machine

variable {δ : Type}

/-- Setting registers from number `i` on, as far as there are any, is assigning to each. -/
theorem setRegistersFrom_eq (x : Registers) {i : Nat} {ws : List Word} (hi : i + ws.length ≤ 32) :
    setRegistersFrom x i ws =
      x.assignAll ((ws.zipIdx i).map fun w => ⟨BitVec.ofNat 8 w.2, w.1⟩) := by
  induction ws generalizing x i with
  | nil => rfl
  | cons v ws ih =>
      rw [List.length_cons] at hi
      have hnumber : (BitVec.ofNat 5 i).setWidth 8 = BitVec.ofNat 8 i := by
        apply BitVec.eq_of_toNat_eq
        simp only [BitVec.toNat_setWidth, BitVec.toNat_ofNat]
        omega
      rw [setRegistersFrom, ih _ (by omega), List.zipIdx_cons, List.map_cons, Registers.set,
        hnumber]
      rfl

theorem whileStopped_eq (m : Machine δ) (change : Option (Machine δ)) :
    (m.whileStopped change).2 = if m.control.isRunning then m else change.getD m := by
  unfold whileStopped
  cases change with
  | none =>
      rw [Option.getD_none, ite_self]
  | some changed =>
      rw [Option.getD_some]
      simp only
      split
      · rfl
      · rfl

/-- A number below 32 is accepted, and so is that of the program counter; no other is. -/
theorem registers_setRegister? [RegisterCodec] (m : Machine δ) (number value : Word) :
    ((m.setRegister? number value).getD m).hart.registers =
      m.hart.registers.assignAll (Command.writeRegister number value).writes := by
  have hpcNumber : pcNumber = 32 := rfl
  simp only [Command.writes]
  unfold setRegister?
  by_cases hlt : number.toNat < 32
  · have hnumber : (BitVec.ofNat 5 number.toNat).setWidth 8 = number.setWidth 8 := by
      apply BitVec.eq_of_toNat_eq
      simp only [BitVec.toNat_setWidth, BitVec.toNat_ofNat]
      omega
    rw [if_neg (by omega), if_pos (by omega), if_pos hlt]
    show m.hart.registers.assign _ value = m.hart.registers.assign _ value
    rw [hnumber]
  · rw [if_neg hlt]
    by_cases hpc : number.toNat = pcNumber
    · rw [if_pos hpc]
      rfl
    · rw [if_neg hpc, if_neg (by omega)]
      rfl

theorem registers_setRegisters? [RegisterCodec] (m : Machine δ) (data : List Byte) :
    ((m.setRegisters? data).getD m).hart.registers =
      m.hart.registers.assignAll (Command.writeRegisters data).writes := by
  simp only [Command.writes]
  unfold setRegisters?
  cases RegisterCodec.deserialize data with
  | none => rfl
  | some r =>
      refine setRegistersFrom_eq _ ?_
      rw [Vector.length_toList]

section
variable [DeviceAccess δ]

/-- A command that runs no instruction writes what it lists, unless the hart runs. -/
theorem registers_dispatch [RegisterCodec] (m : Machine δ) {c : Command}
    (hc : ∀ addr, c ≠ .step addr) :
    (m.dispatch c).2.hart.registers =
      if m.control.isRunning then m.hart.registers else m.hart.registers.assignAll c.writes := by
  have hnone (h : (m.dispatch c).2.hart.registers = m.hart.registers) (hwrites : c.writes = []) :
      (m.dispatch c).2.hart.registers =
        if m.control.isRunning then m.hart.registers
        else m.hart.registers.assignAll c.writes := by
    rw [h, hwrites]
    exact (ite_self _).symm
  cases c with
  | writeRegisters data =>
      rw [← registers_setRegisters?, ← apply_ite (fun m : Machine δ => m.hart.registers),
        ← whileStopped_eq]
      rfl
  | writeRegister number value =>
      rw [← registers_setRegister?, ← apply_ite (fun m : Machine δ => m.hart.registers),
        ← whileStopped_eq]
      rfl
  | readRegister number => exact hnone (by rw [dispatch_readRegister]) rfl
  | writeMemory addr data => exact hnone (by rw [dispatch_writeMemory]) rfl
  | resume addr =>
      refine hnone ?_ rfl
      show (m.startingAt addr).hart.registers = m.hart.registers
      rw [startingAt_eq]
  | step addr => exact absurd rfl (hc addr)
  | stopReason | readRegisters | readMemory _ _ | insertBreakpoint _ | removeBreakpoint _
  | detach | kill | canned _ | malformed | unsupported => exact hnone rfl rfl

/-! ### What an instruction writes -/

/-- An instruction assigns at most once, to the register that its word names. -/
theorem registers_stepOnce (m : Machine δ) :
    ∃ writes : List Assignment, writes.length ≤ 1 ∧
      (∀ w ∈ writes, w.number = (Access.fetch m.map m.pc).1.rd.setWidth 8) ∧
      m.stepOnce.hart.registers = m.hart.registers.assignAll writes :=
  m.sampled.registers_step m.map

theorem number_lt_of_rd {raw : Word} {writes : List Assignment}
    (hwrites : ∀ w ∈ writes, w.number = raw.rd.setWidth 8) :
    ∀ w ∈ writes, w.number.toNat < 32 := by
  intro w hw
  rw [hwrites w hw, Word.toNat_rd]
  exact Nat.mod_lt _ (by decide)

/-- An instruction that names register 0 changes no register. -/
theorem registers_stepOnce_of_rd_zero {m : Machine δ}
    (hrd : (Access.fetch m.map m.pc).1.rd = 0#5) :
    m.stepOnce.hart.registers = m.hart.registers := by
  obtain ⟨writes, -, hwrites, hregisters⟩ := m.registers_stepOnce
  rw [hregisters]
  refine Registers.assignAll_of_zero _ fun w hw => ?_
  rw [hwrites w hw, hrd]
  rfl

end

end Machine

/-! ### Histories -/

/-- What may happen to a computer: an action of its controller or a reset, a number of
instruction boundaries, an image loaded, a change of the devices from outside, an interrupt line
raised or cleared, a request to memory, or a command of a debugger. -/
inductive Happening (δ : Type)
  | act (a : Action)
  | run (budget : Nat)
  | load (image : List Byte)
  | input (change : δ → δ)
  | line (number : Byte) (level : Bool)
  | access (q : MemoryRequest)
  | command (c : Command)

namespace Machine

variable {δ : Type} [DeviceAccess δ]

def happen [RegisterCodec] (m : Machine δ) : Happening δ → Machine δ
  | .act a => m.act a
  | .run budget => (m.run budget).2
  | .load image => (m.loadImage image).2
  | .input change => m.mapDevices change
  | .line number level => { m with hart := m.hart.setPending number level }
  | .access q => (m.serve q).2
  | .command c => (m.dispatch c).2

/-- The computer after a history. -/
def happenAll [RegisterCodec] (m : Machine δ) (history : List (Happening δ)) : Machine δ :=
  history.foldl happen m

/-- A run is a number of boundaries. -/
theorem exists_run_eq_ticks (m : Machine δ) (budget : Nat) :
    ∃ k, (m.run budget).2 = m.actAll (List.replicate k .tick) := by
  suffices hfrom : ∀ retired, ∃ k,
      (m.runFrom retired budget).2 = m.actAll (List.replicate k .tick) from hfrom 0
  induction budget generalizing m with
  | zero => exact fun _ => ⟨0, rfl⟩
  | succ budget ih =>
      intro retired
      unfold runFrom
      cases htick : m.tick with
      | mk outcome m' =>
          have hfirst : m' = m.act .tick := (congrArg Prod.snd htick).symm
          cases outcome with
          | idle => exact ⟨1, hfirst⟩
          | stopped pc => exact ⟨1, hfirst⟩
          | retired =>
              obtain ⟨k, hk⟩ := ih m' (retired + 1)
              refine ⟨k + 1, ?_⟩
              show (m'.runFrom (retired + 1) budget).2 = _
              rw [hk, hfirst]
              rfl

omit [DeviceAccess δ] in
/-- Loading an image moves the hart and leaves its registers. -/
theorem registers_loadImage (m : Machine δ) (image : List Byte) :
    (m.loadImage image).2.hart.registers = m.hart.registers := by
  cases helf : Image.isElf image.toArray with
  | true => rw [loadImage_of_isElf helf]
  | false =>
      rw [loadImage_of_raw helf]
      cases m.map.load m.resetPc image with
      | error fault => rfl
      | ok map => rfl

/-- Requests to memory leave the hart alone. -/
theorem hart_serve (m : Machine δ) (q : MemoryRequest) : (m.serve q).2.hart = m.hart := by
  cases q with
  | poke addr b =>
      simp only [serve]
      cases m.map.poke? addr b <;> rfl
  | load addr data =>
      simp only [serve]
      cases m.map.load addr data <;> rfl
  | fill addr len b =>
      simp only [serve]
      cases m.map.fill addr len b <;> rfl
  | writeMemory addr data =>
      show (m.writeFrom addr 0 data).2.hart = m.hart
      rw [writeFrom_snd]
  | read _ | peek _ | write _ _ _ | readMemory _ _ => rfl

/-! ### Slot 0 -/

/-- Zero is in slot 0. -/
def ZeroHeld (m : Machine δ) : Prop := m.hart.registers.get 0#5 = 0#32

omit [DeviceAccess δ] in
theorem ZeroHeld.of_registers {m m' : Machine δ} (hm : m.ZeroHeld)
    (hregisters : m'.hart.registers = m.hart.registers) : m'.ZeroHeld := by
  unfold ZeroHeld
  rw [hregisters]
  exact hm

omit [DeviceAccess δ] in
theorem ZeroHeld.of_assignAll {m m' : Machine δ} (hm : m.ZeroHeld) {writes : List Assignment}
    (hwrites : ∀ w ∈ writes, w.number.toNat < 32)
    (hregisters : m'.hart.registers = m.hart.registers.assignAll writes) : m'.ZeroHeld := by
  unfold ZeroHeld
  rw [hregisters, Registers.get_zero_assignAll _ hwrites]
  exact hm

theorem ZeroHeld.stepOnce {m : Machine δ} (hm : m.ZeroHeld) : m.stepOnce.ZeroHeld := by
  obtain ⟨writes, -, hwrites, hregisters⟩ := m.registers_stepOnce
  exact hm.of_assignAll (number_lt_of_rd hwrites) hregisters

theorem ZeroHeld.act {m : Machine δ} (hm : m.ZeroHeld) (a : Action) : (m.act a).ZeroHeld := by
  cases a with
  | ask r => exact hm
  | stepOnce => exact hm.stepOnce
  | reset => exact show Registers.zero.get 0#5 = 0#32 by decide
  | tick =>
      show m.tick.2.ZeroHeld
      obtain ⟨control, ⟨-, htick⟩ | ⟨-, htick⟩⟩ := m.exists_tick_eq
      · rw [htick]
        exact ZeroHeld.stepOnce (m := { m with control }) hm
      · rw [htick]
        exact hm

theorem ZeroHeld.actAll {m : Machine δ} (hm : m.ZeroHeld) (actions : List Action) :
    (m.actAll actions).ZeroHeld := by
  induction actions generalizing m with
  | nil => exact hm
  | cons a actions ih => exact ih (hm.act a)

theorem ZeroHeld.dispatch [RegisterCodec] {m : Machine δ} (hm : m.ZeroHeld) (c : Command) :
    (m.dispatch c).2.ZeroHeld := by
  by_cases hstep : ∃ addr, c = .step addr
  · obtain ⟨addr, rfl⟩ := hstep
    rw [dispatch_step]
    exact ZeroHeld.stepOnce (m := { m with hart := { m.hart with pc := addr.getD m.pc } }) hm
  · have hregisters := m.registers_dispatch fun addr h => hstep ⟨addr, h⟩
    by_cases hrunning : m.control.isRunning = true
    · rw [if_pos hrunning] at hregisters
      exact hm.of_registers hregisters
    · rw [if_neg hrunning] at hregisters
      exact hm.of_assignAll c.number_lt_of_writes hregisters

/-- Nothing that happens reaches slot 0. -/
theorem ZeroHeld.happen [RegisterCodec] {m : Machine δ} (hm : m.ZeroHeld) (h : Happening δ) :
    (m.happen h).ZeroHeld := by
  cases h with
  | act a => exact hm.act a
  | run budget =>
      obtain ⟨k, hk⟩ := m.exists_run_eq_ticks budget
      show (m.run budget).2.ZeroHeld
      rw [hk]
      exact hm.actAll _
  | load image => exact hm.of_registers (m.registers_loadImage image)
  | input change => exact hm
  | line number level => exact hm
  | access q => exact hm.of_registers (congrArg Hart.registers (m.hart_serve q))
  | command c => exact hm.dispatch c

theorem ZeroHeld.happenAll [RegisterCodec] {m : Machine δ} (hm : m.ZeroHeld)
    (history : List (Happening δ)) :
    (m.happenAll history).ZeroHeld := by
  induction history generalizing m with
  | nil => exact hm
  | cons h history ih => exact ih (hm.happen h)

omit [DeviceAccess δ] in
theorem zeroHeld_of_new {config : Config} {devices : δ} {m : Machine δ}
    (hm : Machine.new config devices = .ok m) : m.ZeroHeld := by
  unfold new at hm
  cases hmap : AddressMap.standard config.ramSize config.alignment devices with
  | error fault =>
      rw [hmap] at hm
      cases hm
  | ok map =>
      rw [hmap] at hm
      obtain rfl := Except.ok.inj hm
      exact show Registers.zero.get 0#5 = 0#32 by decide

/-! ### What a debugger sees -/

/-- The registers as a debugger sees them begin with eight zeros. -/
theorem ZeroHeld.reply_readRegisters [RegisterCodec] {m : Machine δ} (hm : m.ZeroHeld)
    (hcodec : RegisterCodec.Lawful) :
    ∃ rest, (m.dispatch .readRegisters).1.reply = some (Text.ascii "00000000" ++ rest) := by
  have hbytes : m.coreRegisters.bytes =
      Word.bytes 0#32 ++ (m.hart.registers.toList.tail ++ [m.hart.pc]).flatMap Word.bytes := by
    show (m.hart.registers.toList ++ [m.hart.pc]).flatMap Word.bytes = _
    rw [Registers.toList_eq_cons, hm]
    rfl
  refine ⟨Hex.encode ((m.hart.registers.toList.tail ++ [m.hart.pc]).flatMap Word.bytes), ?_⟩
  rw [hcodec.dispatch_readRegisters, hbytes]
  rfl

theorem ZeroHeld.reply_readRegister [RegisterCodec] {m : Machine δ} (hm : m.ZeroHeld) :
    (m.dispatch (.readRegister 0#32)).1.reply = some (Text.ascii "00000000") := by
  have hregister : m.register? 0#32 = some (m.hart.registers.get 0#5) := rfl
  rw [show m.hart.registers.get 0#5 = 0#32 from hm] at hregister
  simp only [Machine.dispatch, hregister]
  rfl

/-- **Register 0 reads zero for ever.**  Whatever happens to a new computer, slot 0 holds zero, and
a debugger that asks for this register, or for all of them in the usual layout, is told zero.

On any computer an instruction assigns once at most, by a number that is five bits of its word, so
one that names register 0 changes no register; and a command that runs no instruction makes the
writes it lists, all with numbers below 32, unless the hart runs and none is made.  A write to
register 0 changes nothing. -/
theorem zero_register_reads_zero [RegisterCodec] :
    (∀ (config : Config) (devices : δ) (m : Machine δ) (history : List (Happening δ)),
      Machine.new config devices = .ok m →
      let m' := m.happenAll history
      m'.hart.registers.get 0#5 = 0#32 ∧
      (RegisterCodec.Lawful →
        ∃ rest, (m'.dispatch .readRegisters).1.reply = some (Text.ascii "00000000" ++ rest)) ∧
      (m'.dispatch (.readRegister 0#32)).1.reply = some (Text.ascii "00000000")) ∧
    (∀ m : Machine δ,
      let raw := (Access.fetch m.map m.pc).1
      (∃ writes : List Assignment, writes.length ≤ 1 ∧
        (∀ w ∈ writes, w.number.toNat = raw.toNat / 2 ^ 7 % 2 ^ 5) ∧
        m.stepOnce.hart.registers = m.hart.registers.assignAll writes) ∧
      (raw.rd = 0#5 → m.stepOnce.hart.registers = m.hart.registers)) ∧
    (∀ (m : Machine δ) (c : Command), (∀ addr, c ≠ .step addr) →
      (∀ w ∈ c.writes, w.number.toNat < 32) ∧
      (m.dispatch c).2.hart.registers =
        if m.control.isRunning then m.hart.registers
        else m.hart.registers.assignAll c.writes) ∧
    (∀ (m : Machine δ) (value : Word),
      (m.dispatch (.writeRegister 0#32 value)).2.hart.registers = m.hart.registers) := by
  refine ⟨?_, ?_, ?_, ?_⟩
  · intro config devices m history hm m'
    have hheld : m'.ZeroHeld := (zeroHeld_of_new hm).happenAll history
    exact ⟨hheld, hheld.reply_readRegisters, hheld.reply_readRegister⟩
  · intro m raw
    obtain ⟨writes, hlength, hwrites, hregisters⟩ := m.registers_stepOnce
    refine ⟨⟨writes, hlength, ?_, hregisters⟩, registers_stepOnce_of_rd_zero⟩
    intro w hw
    rw [hwrites w hw, Word.toNat_rd]
  · intro m c hc
    exact ⟨c.number_lt_of_writes, m.registers_dispatch hc⟩
  · intro m value
    have hother : ∀ addr, Command.writeRegister 0#32 value ≠ .step addr := by
      intro addr h
      cases h
    rw [m.registers_dispatch hother]
    exact ite_self _

/-- A debugger sets all registers of the standard computer to all ones, then register 0 and the
program counter, and runs an instruction. -/
theorem zero_register_reads_zero_all_ones :
    let m : Machine Devices := fresh {} {}
    let history : List (Happening Devices) :=
      [.command (.writeRegisters (List.replicate 132 0xff#8)),
       .command (.writeRegister 0#32 0xffffffff#32), .command (.writeRegister 32#32 0#32),
       .act .stepOnce]
    let m' := m.happenAll history
    Machine.new {} {} = .ok m ∧
    m'.hart.registers.get 0#5 = 0#32 ∧ m'.hart.registers.get 1#5 = 0xffffffff#32 ∧
    RegisterCodec.Lawful ∧
    ∃ rest, (m'.dispatch .readRegisters).1.reply = some (Text.ascii "00000000" ++ rest) := by
  intro m history m'
  have hsize : ({} : Config).ramSize ≠ 0#32 := by decide
  have hnew : Machine.new {} {} = .ok m := new_eq_ok hsize ({} : Devices)
  obtain ⟨hheld, hshown, -⟩ := zero_register_reads_zero.1 {} _ m history hnew
  refine ⟨hnew, hheld, ?_, RegisterCodec.lawful_littleEndian,
    hshown RegisterCodec.lawful_littleEndian⟩
  decide +kernel

end Machine

end HomeComputer
