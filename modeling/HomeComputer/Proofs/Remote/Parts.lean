/-
Every command keeps to its part of the computer.

Most commands only look.  Of the rest each has a part of the computer that it is for: registers,
memory, one breakpoint, the mode, or the next instruction.  `Machine.Part` says for every command
what may be different after it, and an answer of `E01` means that nothing is; the one exception is
writing memory, which stops at the first address that nothing answers to and does not take back
the bytes before it.

How far such a write gets depends on the table alone (`AddressMap.Reach`), and what it has then
done is what a write of just those bytes does.
-/
import HomeComputer.Proofs.Machine.Presence
import HomeComputer.Proofs.Machine.ZeroRegister
import HomeComputer.Proofs.Memory.Poking

namespace HomeComputer

/-! ### Writing memory -/

namespace AddressMap

variable {δ : Type} {m m' : AddressMap δ}

/-- Of a range of `len` bytes that begins at `addr`, after the first `done` of it, the first `k` are
mapped, and the next, if there is one, is not. -/
structure Reach (m : AddressMap δ) (addr : Word) (done len k : Nat) : Prop where
  le : k ≤ len
  mapped : ∀ i < k, m.Mapped addr (done + i)
  stop : k < len → ¬m.Mapped addr (done + k)

theorem mapped_of_extents (hextents : m'.extents = m.extents) (addr : Word) (i : Nat) :
    m'.Mapped addr i ↔ m.Mapped addr i := by
  have hcontains (m : AddressMap δ) (c : Word) : (∃ r ∈ m.regions, r.contains c = true) ↔
      ∃ e ∈ m.extents, e.contains c = true := by
    unfold extents
    simp only [List.mem_map, exists_exists_and_eq_and]
    rfl
  unfold Mapped
  refine exists_congr fun c => and_congr_right fun _ => ?_
  rw [hcontains, hcontains, hextents]

theorem Reach.zero {addr : Word} {done len : Nat} (hstop : ¬m.Mapped addr done) :
    m.Reach addr done len 0 :=
  ⟨Nat.zero_le _, nofun, fun _ => hstop⟩

theorem Reach.succ {addr : Word} {done len k : Nat} (hextents : m'.extents = m.extents)
    (hfirst : m.Mapped addr done) (h : m'.Reach addr (done + 1) len k) :
    m.Reach addr done (len + 1) (k + 1) := by
  refine ⟨Nat.succ_le_succ h.le, fun i hi => ?_, fun hlt => ?_⟩
  · cases i with
    | zero => exact hfirst
    | succ i =>
        have hmapped := h.mapped i (Nat.lt_of_succ_lt_succ hi)
        rwa [mapped_of_extents hextents, Nat.add_assoc, Nat.add_comm 1] at hmapped
  · have hstop := h.stop (Nat.lt_of_succ_lt_succ hlt)
    rwa [mapped_of_extents hextents, Nat.add_assoc, Nat.add_comm 1] at hstop

end AddressMap

namespace Response

/-- The answer to a command that was not carried out. -/
def Refused (r : Response) : Prop := r.reply = some (Text.ascii "E01")

theorem not_refused_ok : ¬ok.Refused := by
  unfold Refused
  decide

end Response

namespace Machine

variable {δ : Type} [DeviceAccess δ]

theorem isSome_bind_poke?_iff {m : Machine δ} (hm : m.map.Sound) (addr : Word) (i : Nat)
    (b : Byte) :
    ((addr.after? i).bind (m.map.poke? · b)).isSome = true ↔ m.map.Mapped addr i := by
  unfold AddressMap.Mapped
  rw [Option.isSome_bind, Option.any_eq_true]
  exact exists_congr fun c => and_congr_right fun _ => AddressMap.isSome_poke?_iff hm c b

/-- Writing reaches the first address that is not mapped, and is then as good as writing only the
bytes before it. -/
theorem exists_writeFrom {m : Machine δ} (hm : m.map.Sound) (addr : Word) (i : Nat)
    (data : List Byte) :
    ∃ k map, m.map.Reach addr i data.length k ∧
      m.map.Poked (addr.toNat + i) (data.take k) map ∧
      m.writeFrom addr i data = (k == data.length, { m with map }) ∧
      m.writeFrom addr i (data.take k) = (true, { m with map }) := by
  induction data generalizing m i with
  | nil => exact ⟨0, m.map, ⟨Nat.le_refl 0, nofun, nofun⟩, m.map.poked_nil _, rfl, rfl⟩
  | cons b data ih =>
      have hmapped := isSome_bind_poke?_iff hm addr i b
      cases hpoke : (addr.after? i).bind (m.map.poke? · b) with
      | none =>
          rw [hpoke] at hmapped
          exact ⟨0, m.map, .zero fun h => absurd (hmapped.mpr h) Bool.false_ne_true,
            m.map.poked_nil _, writeFrom_of_stop hpoke data, rfl⟩
      | some map =>
          rw [hpoke] at hmapped
          obtain ⟨c, hc, hmap⟩ := Option.bind_eq_some_iff.mp hpoke
          have hextents := AddressMap.extents_poke? hmap
          have hfirst : m.map.Poked (addr.toNat + i) [b] map :=
            AddressMap.poked_poke? hm (Word.eq_addressFrom_of_after? hc).symm hmap
          obtain ⟨k, after, hreach, hpoked, hwritten, hpart⟩ :=
            ih (m := { m with map }) (hm.of_extents hextents) (i + 1)
          refine ⟨k + 1, after, hreach.succ hextents (hmapped.mp rfl), hfirst.cons hpoked,
            ?_, ?_⟩
          · rw [writeFrom_of_poke hpoke, hwritten]
            simp
          · rw [List.take_succ_cons, writeFrom_of_poke hpoke, hpart]

/-! ### Parts -/

/-- From `m` to `m'` nothing has changed but what the command is for. -/
def Part (m m' : Machine δ) : Command → Prop
  | .writeRegisters _ | .writeRegister _ _ =>
      ∃ (registers : Registers) (pc : Word), registers.get 0#5 = m.hart.registers.get 0#5 ∧
        m' = { m with hart := { m.hart with registers, pc } }
  | .writeMemory addr data =>
      ∃ k map, m.map.Reach addr 0 data.length k ∧
        m.map.Poked addr.toNat (data.take k) map ∧ m' = { m with map }
  | .insertBreakpoint addr | .removeBreakpoint addr =>
      ∃ breakpoints : Breakpoints, (∀ a, a ≠ addr → breakpoints[a]? = m.control.breakpoint? a) ∧
        m' = { m with control := { m.control with breakpoints } }
  | .resume addr => m' = { m with
      hart := { m.hart with pc := addr.getD m.pc }
      control := { m.control with mode := .running } }
  | .step addr => m' = stepOnce { m with hart := { m.hart with pc := addr.getD m.pc } }
  | .stopReason | .readRegisters | .readRegister _ | .readMemory _ _ | .detach | .kill | .canned _
  | .malformed | .unsupported => m' = m

omit [DeviceAccess δ] in
/-- Setting registers leaves register 0 as it is. -/
theorem part_of_set [RegisterCodec] {m m' : Machine δ} {c : Command}
    (hset : ∃ (registers : Registers) (pc : Word),
      m' = { m with hart := { m.hart with registers, pc } })
    (hwrites : m'.hart.registers = m.hart.registers.assignAll c.writes) :
    ∃ (registers : Registers) (pc : Word), registers.get 0#5 = m.hart.registers.get 0#5 ∧
      m' = { m with hart := { m.hart with registers, pc } } := by
  obtain ⟨registers, pc, rfl⟩ := hset
  refine ⟨registers, pc, ?_, rfl⟩
  rw [show registers = _ from hwrites]
  exact m.hart.registers.get_zero_assignAll c.number_lt_of_writes

/-! ### Every command -/

theorem part_dispatch [RegisterCodec] {m : Machine δ} (hm : m.map.Sound) (c : Command) :
    m.Part (m.dispatch c).2 c := by
  cases c with
  | writeRegisters data =>
      show ∃ (registers : Registers) (pc : Word), _
      rcases m.whileStopped_cases (m.setRegisters? data) with hrefused | ⟨m', hset, hdone⟩
      · exact ⟨m.hart.registers, m.hart.pc, rfl, congrArg Prod.snd hrefused⟩
      · have hwrites := m.registers_setRegisters? data
        rw [hset] at hwrites
        rw [show (m.dispatch (.writeRegisters data)).2 = m' from congrArg Prod.snd hdone]
        exact part_of_set (exists_of_setRegisters? hset) hwrites
  | writeRegister number value =>
      show ∃ (registers : Registers) (pc : Word), _
      rcases m.whileStopped_cases (m.setRegister? number value) with hrefused | ⟨m', hset, hdone⟩
      · exact ⟨m.hart.registers, m.hart.pc, rfl, congrArg Prod.snd hrefused⟩
      · have hwrites := m.registers_setRegister? number value
        rw [hset] at hwrites
        rw [show (m.dispatch (.writeRegister number value)).2 = m' from congrArg Prod.snd hdone]
        exact part_of_set (exists_of_setRegister? hset) hwrites
  | readRegister number => exact m.dispatch_readRegister number
  | writeMemory addr data =>
      obtain ⟨k, map, hreach, hpoked, hwritten, -⟩ := exists_writeFrom hm addr 0 data
      refine ⟨k, map, hreach, hpoked, ?_⟩
      rw [dispatch_writeMemory, writeMemory, hwritten]
  | insertBreakpoint addr =>
      refine ⟨m.control.breakpoints.claimAt addr, fun a ha => ?_, rfl⟩
      rw [Breakpoints.getElem?_claimAt, if_neg (Ne.symm ha)]
      rfl
  | removeBreakpoint addr =>
      refine ⟨m.control.breakpoints.releaseAt addr, fun a ha => ?_, rfl⟩
      rw [Breakpoints.getElem?_releaseAt, if_neg (Ne.symm ha)]
      rfl
  | resume addr =>
      show (m.startingAt addr).go = _
      rw [startingAt_eq]
      rfl
  | step addr => exact m.dispatch_step addr
  | stopReason | readRegisters | readMemory _ _ | detach | kill | canned _ | malformed
  | unsupported => rfl

/-- What was refused is left alone, and of what could not be written all is written that could. -/
theorem dispatch_of_refused [RegisterCodec] {m : Machine δ} (hm : m.map.Sound) {c : Command}
    (hrefused : (m.dispatch c).1.Refused) :
    (m.dispatch c).2 = m ∨ ∃ addr data k, c = .writeMemory addr data ∧ k < data.length ∧
      m.map.Reach addr 0 data.length k ∧
      m.writeMemory addr (data.take k) = (true, (m.dispatch c).2) := by
  cases c with
  | writeRegisters data =>
      rcases m.whileStopped_cases (m.setRegisters? data) with hleft | ⟨m', -, hdone⟩
      · exact .inl (congrArg Prod.snd hleft)
      · rw [show (m.dispatch (.writeRegisters data)).1 = .ok from congrArg Prod.fst hdone]
          at hrefused
        exact absurd hrefused Response.not_refused_ok
  | writeRegister number value =>
      rcases m.whileStopped_cases (m.setRegister? number value) with hleft | ⟨m', -, hdone⟩
      · exact .inl (congrArg Prod.snd hleft)
      · rw [show (m.dispatch (.writeRegister number value)).1 = .ok from congrArg Prod.fst hdone]
          at hrefused
        exact absurd hrefused Response.not_refused_ok
  | writeMemory addr data =>
      obtain ⟨k, map, hreach, -, hwritten, hpart⟩ := exists_writeFrom hm addr 0 data
      rw [dispatch_writeMemory, writeMemory, hwritten] at hrefused ⊢
      by_cases hall : k = data.length
      · rw [hall, beq_self_eq_true, if_pos rfl] at hrefused
        exact absurd hrefused Response.not_refused_ok
      · have hlt := Nat.lt_of_le_of_ne hreach.le hall
        exact .inr ⟨addr, data, k, rfl, hlt, hreach, hpart⟩
  | readRegister number => exact .inl (m.dispatch_readRegister number)
  | insertBreakpoint addr | removeBreakpoint addr => exact absurd hrefused Response.not_refused_ok
  | resume addr => cases hrefused
  | step addr =>
      exact absurd hrefused (by decide : some (Text.ascii "S05") ≠ some (Text.ascii "E01"))
  | stopReason | readRegisters | readMemory _ _ | detach | kill | canned _ | malformed
  | unsupported => exact .inl rfl

theorem byteAt?_of_poked {m : Machine δ} (hm : m.map.Sound) {n : Nat} {data : List Byte}
    {map : AddressMap δ} (hpoked : m.map.Poked n data map) {r : Region} (hr : r ∈ m.map.regions)
    (hkind : r.backing.kind ≠ .window) (hstart : r.start.toNat % 4 = 0) {a : Word}
    (hin : r.contains a.aligned = true) (hne : { m with map }.byteAt? a ≠ m.byteAt? a) :
    ∃ i < data.length, a = Word.addressFrom n i :=
  hpoked.eq_of_peek hm hr hkind hstart hin hne

/-- **Every command keeps to its part.**  Whatever the computer, a command changes nothing but what
it is for.  If it is answered `E01` it has changed nothing at all; or it was to write memory, not
all of the addresses are mapped, and it did what writing the bytes before the first that is not
does.  A store whose region begins with a word then shows other bytes only at addresses that were
to be written. -/
theorem commands_keep_to_their_part [RegisterCodec] (m : Machine δ) (hm : m.map.Sound)
    (c : Command) :
    let after := (m.dispatch c).2
    m.Part after c ∧
    ((m.dispatch c).1.Refused → after = m ∨ ∃ addr data k, c = .writeMemory addr data ∧
      k < data.length ∧ m.map.Reach addr 0 data.length k ∧
      m.writeMemory addr (data.take k) = (true, after)) ∧
    ∀ addr data, c = .writeMemory addr data → ∀ r ∈ m.map.regions, r.backing.kind ≠ .window →
      r.start.toNat % 4 = 0 → ∀ a : Word, r.contains a.aligned = true →
        after.byteAt? a ≠ m.byteAt? a → ∃ i < data.length, a = Word.addressFrom addr.toNat i := by
  intro after
  refine ⟨part_dispatch hm c, dispatch_of_refused hm, ?_⟩
  rintro addr data rfl r hr hkind hstart a hin hne
  obtain ⟨k, map, hreach, hpoked, hafter⟩ := part_dispatch hm (.writeMemory addr data)
  rw [show after = _ from hafter] at hne
  obtain ⟨i, hi, ha⟩ := byteAt?_of_poked hm hpoked hr hkind hstart hin hne
  rw [List.length_take] at hi
  exact ⟨i, by omega, ha⟩

/-- Of three bytes that run past the end of RAM two are written, and the byte before them is as it
was. -/
theorem commands_keep_to_their_part_past_the_end :
    let m := fresh { ramSize := 8#32 } ({} : Devices)
    let c := Command.writeMemory 0x80000006#32 [1#8, 2#8, 3#8]
    let after := (m.dispatch c).2
    m.map.Sound ∧ (m.dispatch c).1.Refused ∧ m.Part after c ∧
      m.writeMemory 0x80000006#32 [1#8, 2#8] = (true, after) ∧
      after.byteAt? 0x80000005#32 = m.byteAt? 0x80000005#32 := by
  intro m c after
  have hsound : m.map.Sound := (reachable_fresh (by decide) ({} : Devices)).sound
  have hrefused : (m.dispatch c).1.Refused := by
    unfold Response.Refused
    decide +kernel
  obtain ⟨hpart, hwritten, hshown⟩ := commands_keep_to_their_part m hsound c
  have hmapped : ∀ i < 2, m.map.Mapped 0x80000006#32 i := by
    have hin : ∀ i < 2, ∃ r ∈ m.map.regions,
        r.contains (Word.addressFrom 0x80000006 i) = true := by decide +kernel
    intro i hi
    exact ⟨_, Word.after?_of_lt (by show 0x80000006 + i < 2 ^ 32; omega), hin i hi⟩
  refine ⟨hsound, hrefused, hpart, ?_, ?_⟩
  · rcases hwritten hrefused with hsame | ⟨addr, data, k, hc, hk, hreach, hwritten⟩
    · have hone : after.byteAt? 0x80000006#32 ≠ m.byteAt? 0x80000006#32 := by decide +kernel
      exact absurd (congrArg (·.byteAt? 0x80000006#32) hsame) hone
    · obtain ⟨rfl, rfl⟩ := Command.writeMemory.inj hc
      have htwo : k = 2 := by
        by_contra hne
        have hlt := hreach.stop hk
        rw [Nat.zero_add] at hlt
        exact hlt (hmapped k (by simp at hk; omega))
      rw [htwo] at hwritten
      exact hwritten
  · have hram : ∃ r ∈ m.map.regions, r.backing.kind ≠ .window ∧ r.start.toNat % 4 = 0 ∧
        r.contains (Word.aligned 0x80000005#32) = true := by decide +kernel
    obtain ⟨r, hr, hkind, hstart, hin⟩ := hram
    by_contra hne
    obtain ⟨i, hi, ha⟩ := hshown _ _ rfl r hr hkind hstart _ hin hne
    have hi : i < 3 := hi
    have hnot : ∀ i < 3, (0x80000005#32 : Word) ≠ Word.addressFrom 0x80000006 i := by decide
    exact hnot i hi ha

/-- In a region that begins inside a word a byte that is written is shown four addresses on. -/
theorem written_byte_shown_elsewhere :
    let m : Machine Devices := {
      hart := {}
      map := { regions := [Region.ram 0x20000002#32 16#32], devices := {} }
      resetPc := 0#32 }
    let c := Command.writeMemory 0x20000002#32 [0x2a#8]
    ({ devices := {} } : AddressMap Devices).addRegion (Region.ram 0x20000002#32 16#32) =
      .ok m.map ∧
    (m.dispatch c).1 = .ok ∧
    m.readMemory 0x20000006#32 1 = [0#8] ∧
    (m.dispatch c).2.readMemory 0x20000006#32 1 = [0x2a#8] := by
  intro m c
  refine ⟨rfl, ?_, ?_, ?_⟩
  · decide +kernel
  · decide +kernel
  · decide +kernel

end Machine

end HomeComputer
