/-
A waiting key interrupts.

Before an instruction the line of the keyboard is copied into the pending lines, so the instruction
finds it there as the devices have it, whatever had been written there.  Whether an interrupt is due
is looked up after the instruction, in what it left.  Between the two nobody but the instruction
itself changes the pending lines, and only by writing them (`Hart.mip_left`): one that takes the
last key clears the line for the next instruction and not for its own boundary.

The line gets to the hart through a window.  A new computer has one, and keeps it because nothing
that happens moves a region (`Machine.extents_happen`).
-/
import HomeComputer.Proofs.Machine.GuestWrites
import HomeComputer.Proofs.Machine.ZeroRegister
import HomeComputer.Proofs.Processor.CsrWrites

namespace HomeComputer

/-! ### Lines -/

/-- A line is raised or cleared, and no other is touched. -/
theorem CsrFile.getLsbD_setPending (f : CsrFile) (line : Byte) (level : Bool) (j : Nat) :
    (f.setPending line level).mip.getLsbD j =
      if j = line.toNat % 32 then level else f.mip.getLsbD j := by
  have hlt : line.toNat % 32 < 32 := Nat.mod_lt _ (by decide)
  by_cases hj : j < 32
  · have hbit : (1#32 <<< (line.toNat % 32)).getLsbD j = decide (j = line.toNat % 32) := by
      rw [← BitVec.twoPow_eq, BitVec.getLsbD_twoPow]
      simp [hlt, eq_comm]
    unfold setPending
    cases level with
    | false =>
        simp only [Bool.false_eq_true, if_false, BitVec.getLsbD_and, BitVec.getLsbD_not, hbit, hj]
        split <;> simp [*]
    | true =>
        simp only [if_true, BitVec.getLsbD_or, hbit]
        split <;> simp [*]
  · rw [BitVec.getLsbD_of_ge _ j (by omega), BitVec.getLsbD_of_ge _ j (by omega),
      if_neg (by omega)]

theorem Devices.getLsbD_lines (d : Devices) :
    d.lines.getLsbD keyboardLine = !d.keys.isEmpty := by
  unfold lines
  cases d.keys.isEmpty with
  | false => rfl
  | true => rfl

namespace AddressMap

section
variable {δ : Type}

/-- Devices answer somewhere. -/
def HasWindow (m : AddressMap δ) : Prop := ∃ e ∈ m.extents, e.kind = .window

theorem HasWindow.of_extents {m m' : AddressMap δ} (hw : m.HasWindow)
    (hextents : m'.extents = m.extents) : m'.HasWindow := by
  unfold HasWindow
  rw [hextents]
  exact hw

theorem HasWindow.any_isWindow {m : AddressMap δ} (hw : m.HasWindow) :
    m.regions.any (·.backing.isWindow) = true := by
  obtain ⟨e, he, hkind⟩ := hw
  obtain ⟨r, hr, rfl⟩ := List.mem_map.mp he
  refine List.any_eq_true.mpr ⟨r, hr, ?_⟩
  cases hbacking : r.backing with
  | window => rfl
  | boot s | ram s =>
      rw [Region.kind_extent, hbacking] at hkind
      cases hkind

end

/-- One window is enough for the lines, and more of them add nothing. -/
theorem foldl_lines (d : Devices) (rs : List Region) (w : Word) :
    rs.foldl (fun lines r =>
        if r.backing.isWindow then lines ||| DeviceAccess.lines d r.start else lines) w =
      if rs.any (·.backing.isWindow) then w ||| d.lines else w := by
  induction rs generalizing w with
  | nil => rfl
  | cons r rs ih =>
      rw [List.foldl_cons, ih, List.any_cons]
      cases r.backing.isWindow with
      | false => rfl
      | true =>
          show (if _ then (w ||| d.lines) ||| d.lines else w ||| d.lines) = w ||| d.lines
          rw [BitVec.or_assoc, BitVec.or_self, ite_self]

theorem HasWindow.lines_eq {m : AddressMap Devices} (hw : m.HasWindow) :
    m.lines = m.devices.lines := by
  unfold lines
  rw [foldl_lines, if_pos hw.any_isWindow, BitVec.zero_or]

end AddressMap

/-! ### The instruction between the look at the keys and the look for an interrupt -/

namespace Hart

variable {β : Type} [Bus β] {h : Hart} {bus : β}

/-- An instruction leaves the pending lines as they were, unless it writes them. -/
theorem mip_left (h : Hart) (bus : β) :
    (h.left bus).csr.mip = h.csr.mip ∨ h.WritesCsr bus .mip (h.left bus).csr.mip := by
  rcases h.left_cases bus with hkept | ⟨-, hleft⟩ | ⟨r, v, hw, hleft⟩
  · exact .inl (congrArg CsrFile.mip hkept)
  · rw [hleft]
    exact .inl rfl
  · rw [hleft]
    cases r with
    | mip => exact .inr hw
    | _ => exact .inl rfl

/-- If what an instruction writes to the pending lines does not change a line, it leaves the line
as it was. -/
theorem getLsbD_mip_left {i : Nat} {level : Bool} (hline : h.csr.mip.getLsbD i = level)
    (hw : ∀ v, h.WritesCsr bus .mip v → v.getLsbD i = level) :
    (h.left bus).csr.mip.getLsbD i = level := by
  rcases h.mip_left bus with hkept | hwritten
  · rw [hkept, hline]
  · exact hw _ hwritten

/-- A step without an exception whose instruction leaves a line raised and let through ends in an
interrupt, of this line or a higher one. -/
theorem interrupt_of_line (hnone : ∀ e, (h.step bus).1.trap ≠ .exception e)
    (htaken : (h.left bus).csr.mstatus.mie = true) {i : Nat}
    (hmie : (h.left bus).csr.mie.getLsbD i = true) (hmip : (h.left bus).csr.mip.getLsbD i = true) :
    ∃ line, (h.step bus).1.trap = .interrupt line ∧ i ≤ line.toNat := by
  have hdue : ((h.left bus).csr.mip &&& (h.left bus).csr.mie).getLsbD i = true := by
    rw [BitVec.getLsbD_and, hmip, hmie]
    rfl
  rcases h.csr_step_cases bus with ⟨htrap, hcsr⟩ | ⟨line, htrap, hpending, -⟩ | ⟨e, htrap, -, -⟩
  · have hlines := lines_of_trap_none htrap
    rw [hcsr] at hlines
    rcases hlines with hmasked | hzero
    · cases htaken.symm.trans hmasked
    · have hclear : ((h.left bus).csr.mip &&& (h.left bus).csr.mie).getLsbD i = false := by
        rw [show (h.left bus).csr.mip &&& (h.left bus).csr.mie = 0#32 from hzero]
        exact BitVec.getLsbD_zero
      cases hdue.symm.trans hclear
  · exact ⟨line, htrap, (CsrFile.pending?_eq_some hpending).2.2.2 i hdue⟩
  · exact absurd htrap (hnone e)

/-- An interrupt is of a line that the instruction left raised. -/
theorem line_of_interrupt {line : Byte} (ht : (h.step bus).1.trap = .interrupt line) :
    (h.left bus).csr.mip.getLsbD line.toNat = true := by
  rcases h.csr_step_cases bus with ⟨htrap, -⟩ | ⟨line', htrap, hpending, -⟩ | ⟨e, htrap, -, -⟩
  · cases htrap.symm.trans ht
  · obtain rfl : line' = line := Trap.interrupt.inj (htrap.symm.trans ht)
    have hraised := (CsrFile.pending?_eq_some hpending).2.2.1
    rw [BitVec.getLsbD_and, Bool.and_eq_true] at hraised
    exact hraised.1
  · cases htrap.symm.trans ht

end Hart

namespace Machine

section
variable {δ : Type}

/-! ### Nothing moves a region -/

theorem map_whileStopped {m : Machine δ} {change : Option (Machine δ)}
    (hchange : ∀ changed, change = some changed → changed.map = m.map) :
    (m.whileStopped change).2.map = m.map := by
  rcases m.whileStopped_cases change with hrefused | ⟨changed, hsome, hdone⟩
  · rw [hrefused]
  · rw [hdone]
    exact hchange changed hsome

end

section
variable {δ : Type} [DeviceAccess δ] {m : Machine δ}

theorem extents_act (hm : m.map.Sound) (a : Action) : (m.act a).map.extents = m.map.extents :=
  (written_act hm a).extents

theorem extents_dispatch [RegisterCodec] (hm : m.map.Sound) (c : Command) :
    (m.dispatch c).2.map.extents = m.map.extents := by
  cases c with
  | writeRegisters data =>
      refine congrArg AddressMap.extents (map_whileStopped fun changed hset => ?_)
      obtain ⟨registers, pc, rfl⟩ := exists_of_setRegisters? hset
      rfl
  | writeRegister number value =>
      refine congrArg AddressMap.extents (map_whileStopped fun changed hset => ?_)
      obtain ⟨registers, pc, rfl⟩ := exists_of_setRegister? hset
      rfl
  | readRegister number => rw [dispatch_readRegister]
  | writeMemory addr data =>
      rw [dispatch_writeMemory]
      exact extents_writeFrom m addr 0 data
  | resume addr =>
      show (m.startingAt addr).map.extents = _
      rw [startingAt_eq]
  | step addr =>
      rw [dispatch_step]
      exact extents_act (m := { m with hart := { m.hart with pc := addr.getD m.pc } }) hm .stepOnce
  | stopReason | readRegisters | readMemory _ _ | insertBreakpoint _ | removeBreakpoint _
  | detach | kill | canned _ | malformed | unsupported => rfl

/-- Nothing that happens moves a region. -/
theorem extents_happen [RegisterCodec] (hm : m.map.Sound) (h : Happening δ) :
    (m.happen h).map.extents = m.map.extents := by
  cases h with
  | act a => exact extents_act hm a
  | run budget =>
      obtain ⟨k, hk⟩ := m.exists_run_eq_ticks budget
      show (m.run budget).2.map.extents = _
      rw [hk]
      exact (written_actAll hm _).extents
  | load image => exact extents_loadImage hm image
  | input change => rfl
  | line number level => rfl
  | access q => exact extents_serve m q
  | command c => exact extents_dispatch hm c

theorem extents_happenAll [RegisterCodec] (hm : m.map.Sound) (history : List (Happening δ)) :
    (m.happenAll history).map.extents = m.map.extents := by
  induction history generalizing m with
  | nil => rfl
  | cons h history ih =>
      have hfirst := extents_happen hm h
      exact (ih (hm.of_extents hfirst)).trans hfirst

omit [DeviceAccess δ] in
/-- A computer that can be built is the one with the standard map. -/
theorem eq_fresh_of_new {config : Config} {devices : δ} (hnew : new config devices = .ok m) :
    config.ramSize ≠ 0#32 ∧ m = fresh config devices := by
  have hsize : config.ramSize ≠ 0#32 := by
    intro hzero
    have hempty (map : AddressMap δ) :
        map.addRegion (Region.ram AddressMap.ramStart config.ramSize) =
          .error (.emptyRegion "ram") := if_pos hzero
    unfold new AddressMap.standard at hnew
    simp only [addRegion_boot, addRegion_window, hempty, bind, Except.bind] at hnew
    cases hnew
  exact ⟨hsize, Except.ok.inj (hnew.symm.trans (new_eq_ok hsize devices))⟩

/-- A computer keeps the window that it was built with. -/
theorem hasWindow_happenAll [RegisterCodec] {config : Config} {devices : δ}
    (hnew : new config devices = .ok m) (history : List (Happening δ)) :
    (m.happenAll history).map.HasWindow := by
  obtain ⟨hsize, rfl⟩ := eq_fresh_of_new hnew
  have hwindow : (fresh config devices).map.HasWindow :=
    ⟨(Region.window Devices.windowStart Devices.windowSize).extent,
      List.mem_cons_of_mem _ List.mem_cons_self, rfl⟩
  exact hwindow.of_extents (extents_happenAll (reachable_fresh hsize devices).sound history)

/-! ### What an instruction sees -/

/-- An action that runs an instruction runs it on the hart as it sees the keyboard. -/
theorem act_of_retires {a : Action} (hr : m.Retires a) :
    ((m.act a).hart, (m.act a).map) = m.sampled.step m.map := by
  cases a with
  | ask r => exact hr.elim
  | reset => exact hr.elim
  | stepOnce => rfl
  | tick =>
      show (m.tick.2.hart, m.tick.2.map) = _
      obtain ⟨control, ⟨-, htick⟩ | ⟨hidle, -⟩⟩ := m.exists_tick_eq
      · rw [htick]
        rfl
      · exact absurd hr hidle

end

/-- The line of the keyboard is what the keys say, and the others are as they were. -/
theorem getLsbD_sampled {m : Machine Devices} (hw : m.map.HasWindow) (j : Nat) :
    m.sampled.csr.mip.getLsbD j =
      if j = 11 then !m.devices.keys.isEmpty else m.hart.csr.mip.getLsbD j := by
  unfold sampled
  rw [hw.lines_eq, Devices.getLsbD_lines]
  exact CsrFile.getLsbD_setPending m.hart.csr _ _ j

/-- **A waiting key interrupts as soon as it may.**  Whatever happens to a new computer, it has a
window.  On any computer with one, an instruction that a tick or a single step runs finds the
keyboard's line raised exactly if a key was waiting, whatever was written to it before, and else the
hart as it was.  If a key was waiting, the line is raised after the instruction too, unless the
instruction wrote it clear; and an instruction that raises no exception, and leaves the line raised
and let through while interrupts are taken, is followed by an interrupt of this line or a higher
one.  If none was waiting and the instruction did not itself raise the line, it is not followed by
an interrupt of this line. -/
theorem waiting_key_interrupts [RegisterCodec] :
    (∀ (config : Config) (devices : Devices) (m : Machine Devices)
        (history : List (Happening Devices)), Machine.new config devices = .ok m →
      (m.happenAll history).map.HasWindow) ∧
    ∀ (m : Machine Devices) (a : Action), m.map.HasWindow → m.Retires a →
      let seen := m.sampled
      let left := (seen.left m.map).csr
      let after := (m.act a).hart
      (after, (m.act a).map) = seen.step m.map ∧
      seen = { m.hart with csr := { m.hart.csr with mip := seen.csr.mip } } ∧
      (∀ j, seen.csr.mip.getLsbD j =
        if j = 11 then !m.devices.keys.isEmpty else m.hart.csr.mip.getLsbD j) ∧
      (m.devices.keys.isEmpty = false →
        ((∀ v, seen.WritesCsr m.map .mip v → v.getLsbD 11 = true) →
          left.mip.getLsbD 11 = true) ∧
        ((∀ e, after.trap ≠ .exception e) → left.mstatus.mie = true →
          left.mie.getLsbD 11 = true → left.mip.getLsbD 11 = true →
          ∃ line, after.trap = .interrupt line ∧ 11 ≤ line.toNat)) ∧
      (m.devices.keys.isEmpty = true →
        (∀ v, seen.WritesCsr m.map .mip v → v.getLsbD 11 = false) →
        after.trap ≠ .interrupt 11#8) := by
  refine ⟨fun config devices m history hnew => hasWindow_happenAll hnew history, ?_⟩
  intro m a hw hr seen left after
  have hstep : (after, (m.act a).map) = seen.step m.map := act_of_retires hr
  have hafter : after = (seen.step m.map).1 := congrArg Prod.fst hstep
  have hline : seen.csr.mip.getLsbD 11 = !m.devices.keys.isEmpty := getLsbD_sampled hw 11
  refine ⟨hstep, rfl, getLsbD_sampled hw, fun hwaiting => ⟨?_, ?_⟩, fun hempty hwrites => ?_⟩
  · rw [hwaiting] at hline
    exact Hart.getLsbD_mip_left hline
  · rw [hafter]
    intro hnone htaken hmie hmip
    exact Hart.interrupt_of_line hnone htaken hmie hmip
  · rw [hafter]
    intro ht
    rw [hempty] at hline
    have hraised : left.mip.getLsbD 11 = true := Hart.line_of_interrupt ht
    have hclear : left.mip.getLsbD 11 = false := Hart.getLsbD_mip_left hline hwrites
    cases hraised.symm.trans hclear

/-- The computer with an instruction `addi t0, t0, 1` at the reset address and a key waiting, and
a hart that takes the keyboard's interrupt. -/
def keyWaiting : Machine Devices :=
  { (fresh {} {}).happenAll
      [.load [0x93#8, 0x82#8, 0x12#8, 0x00#8], .input (·.pushKey 0x61#8)] with
    hart := { csr := { mie := 0x800#32, mtvec := 0x100#32, mstatus := ⟨true, false⟩ } } }

/-- The same computer with the keyboard's line raised by hand and no key waiting. -/
def keyTaken : Machine Devices :=
  { keyWaiting.mapDevices (·.popKey.2) with
    hart := keyWaiting.hart.setPending 11#8 true }

/-- The key interrupts after the instruction, and the line that was raised by hand does not. -/
theorem waiting_key_interrupts_after_key :
    keyWaiting.hart.csr.mip = 0#32 ∧
    (∃ line, (keyWaiting.act .stepOnce).hart.trap = .interrupt line ∧ 11 ≤ line.toNat) ∧
    keyTaken.hart.csr.mip = 0x800#32 ∧ (keyTaken.act .stepOnce).hart.trap ≠ .interrupt 11#8 := by
  have hnew : Machine.new {} {} = .ok (fresh {} ({} : Devices)) := new_eq_ok (by decide) _
  have hwindow : keyWaiting.map.HasWindow := waiting_key_interrupts.1 {} {} _
    [.load [0x93#8, 0x82#8, 0x12#8, 0x00#8], .input (·.pushKey 0x61#8)] hnew
  have hwindow' : keyTaken.map.HasWindow := hwindow
  obtain ⟨-, -, -, hwaiting, -⟩ := waiting_key_interrupts.2 keyWaiting .stepOnce hwindow trivial
  obtain ⟨-, -, -, -, hempty⟩ := waiting_key_interrupts.2 keyTaken .stepOnce hwindow' trivial
  have hnone : ∀ e, (keyWaiting.act .stepOnce).hart.trap ≠ .exception e := by
    have ht : (keyWaiting.act .stepOnce).hart.trap = .interrupt 11#8 := by decide +kernel
    intro e he
    cases ht.symm.trans he
  refine ⟨rfl, (hwaiting (by decide +kernel)).2 hnone ?_ ?_ ?_, by decide +kernel, hempty ?_ ?_⟩
  · decide +kernel
  · decide +kernel
  · decide +kernel
  · decide +kernel
  · intro v hw
    have hopcode := hw.fields.1
    rw [show (Access.fetch keyTaken.map keyTaken.sampled.pc).1 = 0x00128293#32 by decide +kernel]
      at hopcode
    exact absurd hopcode (by decide)

end Machine

end HomeComputer
