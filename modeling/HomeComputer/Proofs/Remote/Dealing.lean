/-
What a client's bytes come to.

The server deals with bytes one event at a time.  An event adds to what is sent and may add to
the notices that wait, but never looks at either: `Server.behind` puts a server behind what
another has sent and was told, and every step of the server commutes with it.

So the effect of some bytes can be told from the computer and the reader alone, and `Dealing` is
that effect.  The dealing of two stretches of bytes is made of theirs.
-/
import HomeComputer.Remote.Server
import HomeComputer.Proofs.Machine.Memory
import HomeComputer.Proofs.Remote.Framing

namespace HomeComputer

/-! ### The controller and the computer -/

namespace Controller

/-- The controller with other notices before its own. -/
def behind (c : Controller) (told : List Notice) : Controller :=
  { c with notices := told ++ c.notices }

theorem halt_behind (c : Controller) (told : List Notice) (reason : StopReason) (pc : Word) :
    (c.behind told).halt reason pc = ((c.halt reason pc).1, (c.halt reason pc).2.behind told) := by
  unfold halt
  rw [show (c.behind told).isRunning = c.isRunning from rfl]
  by_cases hrunning : c.isRunning = true
  · rw [if_pos hrunning, if_pos hrunning]
    unfold notify
    rw [show (c.behind told).listener = c.listener from rfl]
    cases c.listener with
    | none => rfl
    | some l => simp [behind]
  · rw [if_neg hrunning, if_neg hrunning]
    rfl

end Controller

namespace Machine

variable {δ : Type}

/-- The computer with other notices before its own. -/
def behind (m : Machine δ) (told : List Notice) : Machine δ :=
  { m with control := m.control.behind told }

/-- The computer with no notice waiting. -/
def untold (m : Machine δ) : Machine δ := { m with control := { m.control with notices := [] } }

theorem untold_behind (m : Machine δ) : m.untold.behind m.control.notices = m := by
  unfold untold behind Controller.behind
  simp only [List.append_nil]

theorem behind_behind (m : Machine δ) (told more : List Notice) :
    (m.behind more).behind told = m.behind (told ++ more) := by
  unfold behind Controller.behind
  simp only [List.append_assoc]

theorem halt_behind (m : Machine δ) (told : List Notice) (reason : StopReason) :
    (m.behind told).halt reason = ((m.halt reason).1, (m.halt reason).2.behind told) := by
  unfold halt
  rw [show (m.behind told).control = m.control.behind told from rfl, Controller.halt_behind]
  rfl

theorem setRegisters?_behind [RegisterCodec] (m : Machine δ) (told : List Notice)
    (data : List Byte) :
    (m.behind told).setRegisters? data = (m.setRegisters? data).map (·.behind told) := by
  unfold setRegisters?
  cases RegisterCodec.deserialize data with
  | none => rfl
  | some r => rfl

theorem setRegister?_behind (m : Machine δ) (told : List Notice) (number value : Word) :
    (m.behind told).setRegister? number value =
      (m.setRegister? number value).map (·.behind told) := by
  unfold setRegister?
  split
  · rfl
  · split
    · rfl
    · rfl

theorem startingAt_behind (m : Machine δ) (told : List Notice) (addr : Option Word) :
    (m.behind told).startingAt addr = (m.startingAt addr).behind told := by
  cases addr with
  | none => rfl
  | some pc => rfl

theorem whileStopped_behind (m : Machine δ) (told : List Notice) (change : Option (Machine δ)) :
    (m.behind told).whileStopped (change.map (·.behind told)) =
      ((m.whileStopped change).1, (m.whileStopped change).2.behind told) := by
  unfold whileStopped
  cases change with
  | none => rfl
  | some changed =>
      rw [show (m.behind told).control.isRunning = m.control.isRunning from rfl]
      simp only [Option.map_some]
      split
      · rfl
      · rfl

section
variable [DeviceAccess δ]

theorem readFrom_behind (m : Machine δ) (told : List Notice) (addr : Word) (i len : Nat) :
    (m.behind told).readFrom addr i len = m.readFrom addr i len := by
  induction len generalizing i with
  | zero => rfl
  | succ len ih =>
      rw [readFrom_succ, readFrom_succ, ih]
      rfl

theorem writeFrom_behind (m : Machine δ) (told : List Notice) (addr : Word) (i : Nat)
    (data : List Byte) :
    (m.behind told).writeFrom addr i data =
      ((m.writeFrom addr i data).1, (m.writeFrom addr i data).2.behind told) := by
  induction data generalizing m i with
  | nil => rfl
  | cons b data ih =>
      rw [writeFrom_cons, writeFrom_cons, show (m.behind told).map = m.map from rfl]
      cases (addr.after? i).bind (m.map.poke? · b) with
      | none => rfl
      | some map => exact ih { m with map } (i + 1)

/-- No command looks at the notices that wait. -/
theorem dispatch_behind [RegisterCodec] (m : Machine δ) (told : List Notice) (c : Command) :
    (m.behind told).dispatch c = ((m.dispatch c).1, (m.dispatch c).2.behind told) := by
  cases c with
  | writeRegisters data =>
      simp only [dispatch, setRegisters?_behind, whileStopped_behind]
  | writeRegister number value =>
      simp only [dispatch, setRegister?_behind, whileStopped_behind]
  | readRegister number =>
      simp only [dispatch]
      rw [show (m.behind told).register? number = m.register? number from rfl]
      cases m.register? number with
      | none => rfl
      | some value => rfl
  | readMemory addr len =>
      simp only [dispatch, readMemory, readFrom_behind]
  | writeMemory addr data =>
      simp only [dispatch, writeMemory, writeFrom_behind]
      cases m.writeFrom addr 0 data with
      | mk all m' =>
          cases all with
          | false => rfl
          | true => rfl
  | resume addr =>
      simp only [dispatch, startingAt_behind]
      rfl
  | step addr =>
      simp only [dispatch, startingAt_behind]
      rfl
  | stopReason => rfl
  | readRegisters => rfl
  | insertBreakpoint addr => rfl
  | removeBreakpoint addr => rfl
  | detach => rfl
  | kill => rfl
  | canned reply => rfl
  | malformed => rfl
  | unsupported => rfl

/-! ### What a command changes -/

omit [DeviceAccess δ] in
theorem exists_of_setRegisters? [RegisterCodec] {m m' : Machine δ} {data : List Byte}
    (hset : m.setRegisters? data = some m') :
    ∃ (registers : Registers) (pc : Word),
      m' = { m with hart := { m.hart with registers, pc } } := by
  obtain ⟨r, -, rfl⟩ := Option.map_eq_some_iff.mp hset
  exact ⟨_, r.pc, rfl⟩

omit [DeviceAccess δ] in
theorem exists_of_setRegister? {m m' : Machine δ} {number value : Word}
    (hset : m.setRegister? number value = some m') :
    ∃ (registers : Registers) (pc : Word),
      m' = { m with hart := { m.hart with registers, pc } } := by
  unfold setRegister? at hset
  split at hset
  · exact ⟨m.hart.registers, value, (Option.some.inj hset).symm⟩
  · split at hset
    · exact ⟨_, m.hart.pc, (Option.some.inj hset).symm⟩
    · cases hset

omit [DeviceAccess δ] in
/-- What is carried out while the hart stands still is refused, with nothing changed, or is the
change. -/
theorem whileStopped_cases (m : Machine δ) (change : Option (Machine δ)) :
    m.whileStopped change = (.error, m) ∨
      ∃ m', change = some m' ∧ m.whileStopped change = (.ok, m') := by
  unfold whileStopped
  cases change with
  | none => exact .inl rfl
  | some m' =>
      cases hrunning : m.control.isRunning with
      | true => exact .inl rfl
      | false => exact .inr ⟨m', rfl, rfl⟩

/-- Writing to memory changes the address map alone. -/
theorem writeFrom_snd (m : Machine δ) (addr : Word) (i : Nat) (data : List Byte) :
    (m.writeFrom addr i data).2 = { m with map := (m.writeFrom addr i data).2.map } := by
  induction data generalizing m i with
  | nil => rfl
  | cons b data ih =>
      rw [writeFrom_cons]
      cases (addr.after? i).bind (m.map.poke? · b) with
      | none => rfl
      | some map => exact ih { m with map } (i + 1)

theorem dispatch_writeMemory [RegisterCodec] (m : Machine δ) (addr : Word) (data : List Byte) :
    m.dispatch (.writeMemory addr data) =
      (if (m.writeMemory addr data).1 then .ok else .error,
        { m with map := (m.writeMemory addr data).2.map }) := by
  have hmap : (m.writeMemory addr data).2 = { m with map := (m.writeMemory addr data).2.map } :=
    writeFrom_snd m addr 0 data
  rw [← hmap]
  simp only [dispatch]
  cases m.writeMemory addr data with
  | mk all m' =>
      cases all with
      | false => rfl
      | true => rfl

/-! ### Who is told -/

omit [DeviceAccess δ] in
theorem control_of_setRegisters? [RegisterCodec] {m m' : Machine δ} {data : List Byte}
    (hset : m.setRegisters? data = some m') : m'.control = m.control := by
  obtain ⟨registers, pc, rfl⟩ := exists_of_setRegisters? hset
  rfl

omit [DeviceAccess δ] in
theorem control_of_setRegister? {m m' : Machine δ} {number value : Word}
    (hset : m.setRegister? number value = some m') : m'.control = m.control := by
  obtain ⟨registers, pc, rfl⟩ := exists_of_setRegister? hset
  rfl

omit [DeviceAccess δ] in
theorem control_startingAt (m : Machine δ) (addr : Option Word) :
    (m.startingAt addr).control = m.control := by
  cases addr with
  | none => rfl
  | some pc => rfl

omit [DeviceAccess δ] in
theorem control_whileStopped {m : Machine δ} {change : Option (Machine δ)}
    (hchange : ∀ m', change = some m' → m'.control = m.control) :
    (m.whileStopped change).2.control = m.control := by
  rcases m.whileStopped_cases change with hrefused | ⟨m', hset, hdone⟩
  · rw [hrefused]
  · rw [hdone]
    exact hchange m' hset

/-- Commands tell nobody of anything. -/
theorem notices_dispatch [RegisterCodec] (m : Machine δ) (c : Command) :
    (m.dispatch c).2.control.notices = m.control.notices := by
  cases c with
  | writeRegisters data =>
      exact congrArg Controller.notices (control_whileStopped fun _ => control_of_setRegisters?)
  | writeRegister number value =>
      exact congrArg Controller.notices (control_whileStopped fun _ => control_of_setRegister?)
  | readRegister number =>
      simp only [dispatch]
      split
      · rfl
      · rfl
  | writeMemory addr data => rw [dispatch_writeMemory]
  | resume addr =>
      show (m.startingAt addr).control.notices = m.control.notices
      rw [control_startingAt]
  | step addr =>
      show (m.startingAt addr).control.notices = m.control.notices
      rw [control_startingAt]
  | stopReason => rfl
  | readRegisters => rfl
  | readMemory addr len => rfl
  | insertBreakpoint addr => rfl
  | removeBreakpoint addr => rfl
  | detach => rfl
  | kill => rfl
  | canned reply => rfl
  | malformed => rfl
  | unsupported => rfl

end

end Machine

/-! ### The server -/

namespace Server

variable {δ : Type}

/-- A server behind what another one has sent and was told, in the session of that one. -/
def behind (s t : Server δ) : Server δ where
  machine := s.machine.behind t.machine.control.notices
  session := t.session
  outgoing := t.outgoing ++ s.outgoing

theorem machine_behind (s t : Server δ) :
    (s.behind t).machine = s.machine.behind t.machine.control.notices := rfl

/-- A server of a computer that has sent nothing and was told nothing. -/
def alone (m : Machine δ) : Server δ := { machine := m.untold }

theorem alone_behind (t : Server δ) : (alone t.machine).behind t = t := by
  unfold behind alone
  rw [Machine.untold_behind, List.append_nil]

theorem alone_untold (m : Machine δ) : alone m.untold = alone m := rfl

theorem send_behind (s t : Server δ) (data : List Byte) :
    (s.behind t).send data = (s.send data).behind t := by
  unfold send behind
  simp only [List.append_assoc]

section
variable [DeviceAccess δ] [RegisterCodec]

theorem handle_behind (s t : Server δ) (event : Packet.Event) :
    (s.behind t).handle event = ((s.handle event).1, (s.handle event).2.behind t) := by
  cases event with
  | corrupt => exact congrArg (Prod.mk true) (send_behind s t _)
  | interrupt =>
      simp only [handle, machine_behind, Machine.halt_behind]
      cases s.machine.halt .interrupted with
      | mk wasRunning m =>
          cases wasRunning with
          | true => rfl
          | false => exact congrArg (Prod.mk true) (send_behind { s with machine := m } t _)
  | packet payload =>
      simp only [handle, send_behind, machine_behind, Machine.dispatch_behind]
      cases (s.send (Text.ascii "+")).machine.dispatch (Command.parse payload) with
      | mk response m =>
          cases response.reply with
          | none => rfl
          | some answer =>
              exact congrArg (Prod.mk _)
                (send_behind { s.send (Text.ascii "+") with machine := m } t _)

theorem consume_of_none {r next : Packet.Reader} {b : Byte} (hfeed : r.feed b = (none, next))
    (s : Server δ) (data : List Byte) : s.consume r (b :: data) = s.consume next data := by
  rw [consume, hfeed]

theorem consume_of_some {r next : Packet.Reader} {b : Byte} {event : Packet.Event}
    (hfeed : r.feed b = (some event, next)) (s : Server δ) (data : List Byte) :
    s.consume r (b :: data) =
      if (s.handle event).1 then (s.handle event).2.consume next data
      else (false, next, (s.handle event).2) := by
  rw [consume, hfeed]
  cases hhandle : s.handle event with
  | mk goesOn s' =>
      cases goesOn with
      | false => simp only [hhandle, Bool.false_eq_true, if_false]
      | true => simp only [hhandle, if_true]

theorem consume_behind (s t : Server δ) (r : Packet.Reader) (data : List Byte) :
    (s.behind t).consume r data =
      ((s.consume r data).1, (s.consume r data).2.1, (s.consume r data).2.2.behind t) := by
  induction data generalizing s r with
  | nil => rfl
  | cons b data ih =>
      cases hfeed : r.feed b with
      | mk event next =>
          cases event with
          | none =>
              rw [consume_of_none hfeed, consume_of_none hfeed, ih]
          | some event =>
              rw [consume_of_some hfeed, consume_of_some hfeed, handle_behind]
              by_cases hgoes : (s.handle event).1 = true
              · rw [if_pos hgoes, if_pos hgoes, ih]
              · rw [if_neg hgoes, if_neg hgoes]

/-- Whatever a server has sent and was told, it deals with bytes as if it had not. -/
theorem consume_eq_behind (s : Server δ) (r : Packet.Reader) (data : List Byte) :
    s.consume r data =
      (((alone s.machine).consume r data).1, ((alone s.machine).consume r data).2.1,
        ((alone s.machine).consume r data).2.2.behind s) := by
  have h := consume_behind (alone s.machine) s r data
  rwa [alone_behind] at h

theorem consume_append (s : Server δ) (r : Packet.Reader) (b₁ b₂ : List Byte) :
    s.consume r (b₁ ++ b₂) =
      if (s.consume r b₁).1 then (s.consume r b₁).2.2.consume (s.consume r b₁).2.1 b₂
      else s.consume r b₁ := by
  induction b₁ generalizing s r with
  | nil => rfl
  | cons b b₁ ih =>
      rw [List.cons_append]
      cases hfeed : r.feed b with
      | mk event next =>
          cases event with
          | none => rw [consume_of_none hfeed, consume_of_none hfeed, ih]
          | some event =>
              rw [consume_of_some hfeed, consume_of_some hfeed]
              by_cases hgoes : (s.handle event).1 = true
              · rw [if_pos hgoes, if_pos hgoes, ih]
              · rw [if_neg hgoes, if_neg hgoes]
                rfl

/-- Only an interrupt from the client is told of. -/
theorem notices_handle {s : Server δ} {event : Packet.Event} (hevent : event ≠ .interrupt) :
    (s.handle event).2.machine.control.notices = s.machine.control.notices := by
  cases event with
  | corrupt => rfl
  | interrupt => exact absurd rfl hevent
  | packet payload =>
      have hnotices :=
        Machine.notices_dispatch (s.send (Text.ascii "+")).machine (Command.parse payload)
      simp only [handle]
      cases hdispatch : (s.send (Text.ascii "+")).machine.dispatch (Command.parse payload) with
      | mk response m =>
          rw [hdispatch] at hnotices
          cases response.reply with
          | none => exact hnotices
          | some answer => exact hnotices

theorem notices_consume {s : Server δ} {r : Packet.Reader} {data : List Byte}
    (hevents : Packet.Event.interrupt ∉ (r.feedAll data).1) :
    (s.consume r data).2.2.machine.control.notices = s.machine.control.notices := by
  induction data generalizing s r with
  | nil => rfl
  | cons b data ih =>
      cases hfeed : r.feed b with
      | mk event next =>
          cases event with
          | none =>
              rw [Packet.Reader.feedAll_of_none hfeed] at hevents
              rw [consume_of_none hfeed]
              exact ih hevents
          | some event =>
              rw [Packet.Reader.feedAll_of_some hfeed, List.mem_cons, not_or] at hevents
              have hnotices := notices_handle (s := s) (Ne.symm hevents.1)
              rw [consume_of_some hfeed]
              by_cases hgoes : (s.handle event).1 = true
              · rw [if_pos hgoes, ih hevents.2, hnotices]
              · rw [if_neg hgoes, hnotices]

end

end Server

/-! ### Dealings -/

/-- What some bytes come to, apart from what was sent and told before them. -/
structure Dealing (δ : Type) where
  /-- Whether the session goes on after them. -/
  goesOn : Bool
  reader : Packet.Reader
  /-- The computer, without notices. -/
  machine : Machine δ
  /-- What is sent. -/
  answers : List Byte
  /-- What is told. -/
  told : List Notice

section

variable {δ : Type} [DeviceAccess δ] [RegisterCodec]

/-- What bytes come to from where a reader is. -/
def Machine.deal (m : Machine δ) (r : Packet.Reader) (data : List Byte) : Dealing δ :=
  let result := (Server.alone m).consume r data
  { goesOn := result.1
    reader := result.2.1
    machine := result.2.2.machine.untold
    answers := result.2.2.outgoing
    told := result.2.2.machine.control.notices }

/-- One dealing and then another. -/
def Dealing.append (d e : Dealing δ) : Dealing δ :=
  { e with answers := d.answers ++ e.answers, told := d.told ++ e.told }

/-- The server after a dealing. -/
def Server.after (s : Server δ) (d : Dealing δ) : Server δ :=
  { s with
    machine := d.machine.behind (s.machine.control.notices ++ d.told)
    outgoing := s.outgoing ++ d.answers }

/-- All that a server does with bytes is told by their dealing. -/
theorem Server.consume_eq (s : Server δ) (r : Packet.Reader) (data : List Byte) :
    s.consume r data =
      ((s.machine.deal r data).goesOn, (s.machine.deal r data).reader,
        s.after (s.machine.deal r data)) := by
  rw [consume_eq_behind]
  unfold after Machine.deal behind
  rw [← Machine.behind_behind, Machine.untold_behind]

theorem Machine.told_deal {m : Machine δ} {r : Packet.Reader} {data : List Byte}
    (hevents : Packet.Event.interrupt ∉ (r.feedAll data).1) : (m.deal r data).told = [] :=
  Server.notices_consume hevents

/-- What two stretches of bytes come to. -/
theorem Machine.deal_append (m : Machine δ) (r : Packet.Reader) (b₁ b₂ : List Byte) :
    m.deal r (b₁ ++ b₂) =
      if (m.deal r b₁).goesOn then
        (m.deal r b₁).append ((m.deal r b₁).machine.deal (m.deal r b₁).reader b₂)
      else m.deal r b₁ := by
  unfold deal
  rw [Server.consume_append]
  by_cases hgoes : ((Server.alone m).consume r b₁).1 = true
  · rw [if_pos hgoes, if_pos hgoes, Server.consume_eq_behind, Server.alone_untold]
    rfl
  · rw [if_neg hgoes, if_neg hgoes]

end

end HomeComputer
