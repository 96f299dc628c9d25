/-
Every stop is answered once.

While a client is connected its server is told of stops, and answers them when it comes to it: a
notice waits in the controller until a poll sends it.  An interrupt from the client either stops
a running computer, and then is answered like any other stop, or finds it stopped and is answered
at once.  Neither of the two ways may lose an answer or give one twice.

Between two steps of a server the host may do anything to the computer.  So a history is made of
the smallest steps that others cannot come between, `Turn`: something the host does, bytes that
arrive, the next of them dealt with, and the answers that wait sent.  A poll is several of them
(`poll_eq_turnAll`).

What is carried along a history is a balance (`Balanced`): what was sent of stops and what still
waits is what waited before and the stops since, in this order.
-/
import HomeComputer.Proofs.Machine.Stops
import HomeComputer.Proofs.Remote.Cuts

namespace HomeComputer

/-! ### Commands and the controller -/

/-- What a command asks of the controller, if it asks anything. -/
def Command.request? : Command → Option Request
  | insertBreakpoint addr => some (.debuggerInsert addr)
  | removeBreakpoint addr => some (.debuggerRemove addr)
  | resume _ => some .go
  | step _ => some .retired
  | _ => none

namespace Machine

variable {δ : Type} [DeviceAccess δ]

/-- A command changes the controller by what it asks of it, and not otherwise. -/
theorem control_dispatch [RegisterCodec] (m : Machine δ) (c : Command) :
    (m.dispatch c).2.control = (c.request?.map m.control.serve).getD m.control := by
  cases c with
  | writeRegisters data => exact control_whileStopped fun _ => control_of_setRegisters?
  | writeRegister number value => exact control_whileStopped fun _ => control_of_setRegister?
  | readRegister number =>
      simp only [dispatch]
      split
      · rfl
      · rfl
  | writeMemory addr data =>
      rw [dispatch_writeMemory]
      rfl
  | resume addr =>
      show (m.startingAt addr).control.go = m.control.go
      rw [control_startingAt]
  | step addr =>
      show (m.startingAt addr).control.retired = m.control.retired
      rw [control_startingAt]
  | stopReason | readRegisters | readMemory _ _ | insertBreakpoint _ | removeBreakpoint _
  | detach | kill | canned _ | malformed | unsupported => rfl

theorem steady_request? {c : Command} {r : Request} (hr : c.request? = some r)
    (control : Controller) : r.steady = true ∧ r.stop? control = none := by
  cases c <;> cases hr <;> exact ⟨rfl, rfl⟩

/-- No command stops a running hart, and the listener is told of nothing. -/
theorem tells_dispatch [RegisterCodec] {m : Machine δ} {l : Listener}
    (hm : m.control.listener = some l) (c : Command) :
    Controller.Tells l m.control (m.dispatch c).2.control [] ∧
      ¬(m.control.mode = .running ∧ (m.dispatch c).2.control.mode = .halted) := by
  rw [control_dispatch]
  cases hr : c.request? with
  | none =>
      refine ⟨Controller.Tells.of_same hm rfl rfl, ?_⟩
      rintro ⟨hrunning, hhalted⟩
      cases hrunning.symm.trans hhalted
  | some r =>
      obtain ⟨hsteady, hstop⟩ := steady_request? hr m.control
      have htells := Controller.tells_serve hm hsteady
      have hfell := m.control.isSome_stop?_serve hsteady
      rw [hstop] at htells hfell
      exact ⟨htells, fun h => by cases hfell.mpr h⟩

end Machine

/-! ### The next byte -/

/-- What the next byte completes, if one has arrived and it completes anything. -/
def Session.event? (c : Session) : Option Packet.Event :=
  c.incoming.head?.bind fun b => (c.reader.feed b).1

/-- The session with its next byte read. -/
def Session.rest (c : Session) : Session :=
  match c.incoming with
  | [] => c
  | b :: bs => { reader := (c.reader.feed b).2, incoming := bs }

/-! ### Turns -/

/-- The smallest steps of a server and its host. -/
inductive Turn (δ : Type)
  | host (v : Move δ)
  /-- Bytes arrive. -/
  | receive (data : List Byte)
  /-- The next byte that has arrived is dealt with. -/
  | deal
  /-- The answers that wait are sent. -/
  | flush

def Turn.steady {δ : Type} : Turn δ → Bool
  | host v => v.steady
  | _ => true

/-- What is sent to a client at once. -/
inductive Utterance
  /-- What a packet is acknowledged and answered with. -/
  | answer (bytes : List Byte)
  /-- The answer to an interrupt that found the hart stopped. -/
  | interrupted
  /-- The answer for a stop that the server was told of. -/
  | stop (n : Notice)
  deriving DecidableEq, Repr

namespace Utterance

/-- Stops at an interrupt are answered with the one signal, all others with the other. -/
def bytes : Utterance → List Byte
  | answer bytes => bytes
  | interrupted => Packet.frame (Text.ascii "S02")
  | stop n => Packet.frame (Text.ascii (if n.reason = .interrupted then "S02" else "S05"))

def notice? : Utterance → Option Notice
  | stop n => some n
  | _ => none

theorem flatMap_bytes_stop (notices : List Notice) :
    (notices.map stop).flatMap bytes =
      notices.flatMap fun n => Packet.frame (Text.ascii n.reason.reply) := by
  rw [List.flatMap_map]
  refine List.flatMap_congr fun n _ => ?_
  cases hreason : n.reason <;> simp [bytes, hreason, StopReason.reply]

theorem filterMap_notice?_stop (notices : List Notice) :
    (notices.map stop).filterMap notice? = notices := by
  rw [List.filterMap_map]
  exact List.filterMap_some

end Utterance

namespace Server

variable {δ : Type}

/-- The notices for the client. -/
def waiting (s : Server δ) : List Notice :=
  s.machine.control.notices.filter (·.listener == .debugger)

def event? (s : Server δ) : Option Packet.Event := s.session.bind Session.event?

/-- The server with the next byte read. -/
def read (s : Server δ) : Server δ := { s with session := s.session.map Session.rest }

section
variable [DeviceAccess δ] [RegisterCodec]

/-- Deals with the next byte that has arrived; the session may end with it. -/
def dealNext (s : Server δ) : Server δ :=
  match s.event? with
  | none => s.read
  | some event =>
      match s.read.handle event with
      | (true, s) => s
      | (false, s) => s.disconnect

def turn (s : Server δ) : Turn δ → Server δ
  | .host v => { s with machine := s.machine.move v }
  | .receive data => s.receive data
  | .deal => s.dealNext
  | .flush => if s.isConnected then s.flush.2 else s

def turnAll (s : Server δ) (turns : List (Turn δ)) : Server δ := turns.foldl turn s

/-- What an event is answered with at once. -/
def answers (s : Server δ) : Packet.Event → List Utterance
  | .packet payload =>
      let reply := (s.machine.dispatch (Command.parse payload)).1.reply
      [.answer (Text.ascii "+" ++ (reply.map Packet.frame).getD [])]
  | .corrupt => [.answer (Text.ascii "-")]
  | .interrupt => if s.machine.control.isRunning then [] else [.interrupted]

/-- The stop that an event brings about. -/
def eventStop? (s : Server δ) (event : Packet.Event) : Option Stop :=
  if event = .interrupt then (Request.halt .interrupted s.machine.pc).stop? s.machine.control
  else none

/-- What is sent in a turn. -/
def sends (s : Server δ) : Turn δ → List Utterance
  | .deal => (s.event?.map s.answers).getD []
  | .flush => if s.isConnected then s.waiting.map .stop else []
  | .host _ | .receive _ => []

/-- What is sent in a history, in its order. -/
def said (s : Server δ) : List (Turn δ) → List Utterance
  | [] => []
  | t :: turns => s.sends t ++ (s.turn t).said turns

/-- The stop that a turn brings about: one of the host's, or an interrupt of a running hart. -/
def stop? (s : Server δ) : Turn δ → Option Stop
  | .host v => s.machine.stop? v
  | .deal => s.event?.bind s.eventStop?
  | .receive _ | .flush => none

/-- The stops in a history, in its order. -/
def stops (s : Server δ) : List (Turn δ) → List Stop
  | [] => []
  | t :: turns => (s.stop? t).toList ++ (s.turn t).stops turns

/-- From one server to another the client was sent these utterances; with what waits they answer
what waited and these stops. -/
structure Balanced (s s' : Server δ) (said : List Utterance) (stops : List Stop) : Prop where
  listener : s'.machine.control.listener = some .debugger
  outgoing : s'.outgoing = s.outgoing ++ said.flatMap Utterance.bytes
  told : said.filterMap Utterance.notice? ++ s'.waiting =
    s.waiting ++ stops.map (Stop.notice .debugger)

omit [DeviceAccess δ] [RegisterCodec] in
theorem Balanced.trans {s s' s'' : Server δ} {said more : List Utterance}
    {stops stops' : List Stop} (h : Balanced s s' said stops) (h' : Balanced s' s'' more stops') :
    Balanced s s'' (said ++ more) (stops ++ stops') := by
  refine ⟨h'.listener, ?_, ?_⟩
  · rw [h'.outgoing, h.outgoing, List.flatMap_append, List.append_assoc]
  · rw [List.filterMap_append, List.append_assoc, h'.told, ← List.append_assoc, h.told,
      List.map_append, List.append_assoc]

/-! ### One turn -/

omit [DeviceAccess δ] [RegisterCodec] in
/-- What the controller tells is for the debugger, as long as the debugger listens. -/
theorem waiting_of_tells {s s' : Server δ} {stops : List Stop}
    (htells : Controller.Tells .debugger s.machine.control s'.machine.control stops) :
    s'.waiting = s.waiting ++ stops.map (Stop.notice .debugger) := by
  have hall : (stops.map (Stop.notice .debugger)).filter (·.listener == .debugger) =
      stops.map (Stop.notice .debugger) := by
    rw [List.filter_eq_self]
    intro n hn
    obtain ⟨stop, -, rfl⟩ := List.mem_map.mp hn
    rfl
  unfold waiting
  rw [htells.notices, List.filter_append, hall]

omit [DeviceAccess δ] [RegisterCodec] in
theorem balanced_of_tells {s s' : Server δ} {said : List Utterance} {stops : List Stop}
    (htells : Controller.Tells .debugger s.machine.control s'.machine.control stops)
    (houtgoing : s'.outgoing = s.outgoing ++ said.flatMap Utterance.bytes)
    (hsaid : said.filterMap Utterance.notice? = []) : Balanced s s' said stops := by
  refine ⟨htells.listener, houtgoing, ?_⟩
  rw [hsaid, List.nil_append, waiting_of_tells htells]

omit [DeviceAccess δ] [RegisterCodec] in
theorem balanced_flush {s : Server δ} (hs : s.machine.control.listener = some .debugger) :
    Balanced s s.flush.2 (s.waiting.map .stop) [] := by
  refine ⟨hs, ?_, ?_⟩
  · rw [Utterance.flatMap_bytes_stop]
    rfl
  · rw [Utterance.filterMap_notice?_stop]
    show s.waiting ++ (othersOf s.machine.control.notices).filter _ = _
    rw [filter_othersOf]
    rfl

theorem handle_packet (s : Server δ) (payload : List Byte) :
    let response := (s.machine.dispatch (Command.parse payload)).1
    s.handle (.packet payload) = (!response.close, { s with
      machine := (s.machine.dispatch (Command.parse payload)).2
      outgoing := s.outgoing ++
        (Text.ascii "+" ++ (response.reply.map Packet.frame).getD []) }) := by
  simp only [handle]
  cases hdispatch : s.machine.dispatch (Command.parse payload) with
  | mk response m =>
      rw [show (s.send (Text.ascii "+")).machine = s.machine from rfl, hdispatch]
      cases hreply : response.reply with
      | none => simp [send]
      | some reply => simp [send, Server.reply]

theorem handle_interrupt (s : Server δ) :
    s.handle .interrupt = (true, { s with
      machine := (s.machine.halt .interrupted).2
      outgoing := s.outgoing ++ (s.answers .interrupt).flatMap Utterance.bytes }) := by
  have hfst : (s.machine.halt .interrupted).1 = s.machine.control.isRunning := by
    unfold Machine.halt Controller.halt
    cases s.machine.control.isRunning <;> rfl
  unfold answers
  rw [← hfst]
  simp only [handle]
  cases s.machine.halt .interrupted with
  | mk wasRunning m =>
      cases wasRunning with
      | true => simp
      | false => simp [Server.reply, send, Utterance.bytes, StopReason.reply]

theorem outgoing_handle (s : Server δ) (event : Packet.Event) :
    (s.handle event).2.outgoing = s.outgoing ++ (s.answers event).flatMap Utterance.bytes := by
  cases event with
  | corrupt => simp [handle, send, answers, Utterance.bytes]
  | packet payload =>
      rw [handle_packet]
      simp [answers, Utterance.bytes]
  | interrupt => rw [handle_interrupt]

/-- An event is answered at once, or stops the hart and is answered later. -/
theorem balanced_handle {s : Server δ} (hs : s.machine.control.listener = some .debugger)
    (event : Packet.Event) :
    Balanced s (s.handle event).2 (s.answers event) (s.eventStop? event).toList := by
  have houtgoing := s.outgoing_handle event
  cases event with
  | corrupt =>
      exact balanced_of_tells (Controller.Tells.of_same hs rfl rfl) houtgoing rfl
  | packet payload =>
      rw [handle_packet] at houtgoing ⊢
      exact balanced_of_tells (Machine.tells_dispatch hs _).1 houtgoing rfl
  | interrupt =>
      rw [handle_interrupt] at houtgoing ⊢
      refine balanced_of_tells (Controller.tells_halt hs .interrupted s.machine.pc) houtgoing ?_
      unfold answers
      cases s.machine.control.isRunning <;> rfl

/-- An event stops the hart exactly where the mode goes from running to halted. -/
theorem isSome_eventStop? {s : Server δ} (hs : s.machine.control.listener = some .debugger)
    (event : Packet.Event) :
    (s.eventStop? event).isSome = true ↔ s.machine.control.mode = .running ∧
      (s.handle event).2.machine.control.mode = .halted := by
  cases event with
  | corrupt =>
      show _ ↔ s.machine.control.mode = .running ∧ s.machine.control.mode = .halted
      cases s.machine.control.mode <;> simp [eventStop?]
  | packet payload =>
      rw [handle_packet]
      have hnever := (Machine.tells_dispatch hs (Command.parse payload)).2
      exact ⟨fun h => (by cases h), fun h => absurd h hnever⟩
  | interrupt =>
      rw [handle_interrupt]
      exact s.machine.control.isSome_stop?_serve (r := .halt .interrupted s.machine.pc) rfl

/-! ### Sessions that last -/

theorem session_handle (s : Server δ) (event : Packet.Event) :
    (s.handle event).2.session = s.session := by
  cases event with
  | corrupt => rfl
  | packet payload => rw [handle_packet]
  | interrupt => rw [handle_interrupt]

theorem dealNext_of_none {s : Server δ} (hevent : s.event? = none) : s.dealNext = s.read := by
  unfold dealNext
  rw [hevent]

theorem dealNext_of_some {s : Server δ} {event : Packet.Event} (hevent : s.event? = some event) :
    s.dealNext = if (s.read.handle event).1 then (s.read.handle event).2
      else (s.read.handle event).2.disconnect := by
  unfold dealNext
  rw [hevent]
  cases hhandle : s.read.handle event with
  | mk goesOn s' =>
      cases goesOn with
      | false => simp [hhandle]
      | true => simp [hhandle]

/-- With nobody connected the server does nothing. -/
theorem turn_of_not_connected {s : Server δ} (hs : s.isConnected = false) {t : Turn δ}
    (ht : ∀ v, t ≠ .host v) : s.turn t = s := by
  have hnone : s.session = none := by simpa [isConnected] using hs
  have hmap (f : Session → Session) : { s with session := s.session.map f } = s := by
    rw [hnone, Option.map_none, ← hnone]
  cases t with
  | host v => exact absurd rfl (ht v)
  | receive data => exact hmap _
  | deal =>
      have hevent : s.event? = none := by
        unfold event?
        rw [hnone]
        rfl
      exact (dealNext_of_none hevent).trans (hmap _)
  | flush =>
      unfold turn
      rw [hs]
      rfl

theorem isConnected_of_turn {s : Server δ} {t : Turn δ} (hturn : (s.turn t).isConnected = true) :
    s.isConnected = true := by
  by_contra hs
  rw [Bool.not_eq_true] at hs
  by_cases ht : ∃ v, t = .host v
  · obtain ⟨v, rfl⟩ := ht
    rw [show (s.turn (.host v)).isConnected = s.isConnected from rfl, hs] at hturn
    cases hturn
  · rw [turn_of_not_connected hs (fun v h => ht ⟨v, h⟩), hs] at hturn
    cases hturn

theorem isConnected_of_turnAll {s : Server δ} {turns : List (Turn δ)}
    (hturns : (s.turnAll turns).isConnected = true) : s.isConnected = true := by
  induction turns generalizing s with
  | nil => exact hturns
  | cons t turns ih => exact isConnected_of_turn (ih hturns)

/-- A session that outlasts the next byte goes on with its event, if there is one. -/
theorem dealNext_of_connected {s : Server δ} {event : Packet.Event}
    (hevent : s.event? = some event) (hdeal : s.dealNext.isConnected = true) :
    s.dealNext = (s.read.handle event).2 := by
  rw [dealNext_of_some hevent] at hdeal ⊢
  by_cases hgoes : (s.read.handle event).1 = true
  · rw [if_pos hgoes]
  · rw [if_neg hgoes] at hdeal
    cases hdeal

section
variable {s : Server δ} {t : Turn δ}

/-- In a turn the client is sent what `sends` lists, and told of the stop or put off. -/
theorem balanced_turn (hs : s.machine.control.listener = some .debugger) (ht : t.steady = true)
    (hturn : (s.turn t).isConnected = true) :
    Balanced s (s.turn t) (s.sends t) (s.stop? t).toList := by
  cases t with
  | host v =>
      exact balanced_of_tells (Machine.tells_move hs ht) (List.append_nil _).symm rfl
  | receive data =>
      exact balanced_of_tells (Controller.Tells.of_same hs rfl rfl) (List.append_nil _).symm rfl
  | flush =>
      have hconnected := isConnected_of_turn hturn
      unfold turn sends
      rw [if_pos hconnected, if_pos hconnected]
      exact balanced_flush hs
  | deal =>
      unfold sends stop?
      cases hevent : s.event? with
      | none =>
          show Balanced s s.dealNext [] []
          rw [dealNext_of_none hevent]
          exact balanced_of_tells (Controller.Tells.of_same hs rfl rfl)
            (List.append_nil _).symm rfl
      | some event =>
          show Balanced s s.dealNext (s.answers event) (s.eventStop? event).toList
          rw [dealNext_of_connected hevent hturn]
          have hread := balanced_handle (s := s.read) hs event
          exact ⟨hread.listener, hread.outgoing, hread.told⟩

/-- A turn brings about a stop exactly where the mode goes from running to halted. -/
theorem isSome_stop?_turn (hs : s.machine.control.listener = some .debugger)
    (ht : t.steady = true) (hturn : (s.turn t).isConnected = true) :
    (s.stop? t).isSome = true ↔ s.machine.control.mode = .running ∧
      (s.turn t).machine.control.mode = .halted := by
  have hstays : (none : Option Stop).isSome = true ↔
      s.machine.control.mode = .running ∧ s.machine.control.mode = .halted := by
    cases s.machine.control.mode <;> simp
  cases t with
  | host v => exact s.machine.isSome_stop?_move ht
  | receive data => exact hstays
  | flush =>
      unfold turn
      rw [if_pos (isConnected_of_turn hturn)]
      exact hstays
  | deal =>
      show (s.event?.bind s.eventStop?).isSome = true ↔ _ ∧ s.dealNext.machine.control.mode = _
      cases hevent : s.event? with
      | none =>
          rw [dealNext_of_none hevent]
          exact hstays
      | some event =>
          rw [dealNext_of_connected hevent hturn]
          exact isSome_eventStop? (s := s.read) hs event

/-- Over a whole session every stop is answered or still waits. -/
theorem balanced_turnAll {turns : List (Turn δ)}
    (hs : s.machine.control.listener = some .debugger) (hturns : ∀ t ∈ turns, t.steady = true)
    (hlasts : (s.turnAll turns).isConnected = true) :
    Balanced s (s.turnAll turns) (s.said turns) (s.stops turns) := by
  induction turns generalizing s with
  | nil =>
      exact balanced_of_tells (Controller.Tells.of_same hs rfl rfl) (List.append_nil _).symm rfl
  | cons t turns ih =>
      obtain ⟨ht, hturns⟩ := List.forall_mem_cons.mp hturns
      have hfirst := balanced_turn hs ht (isConnected_of_turnAll hlasts)
      exact hfirst.trans (ih hfirst.listener hturns hlasts)

end

/-! ### Polls -/

theorem handle_with_session (s : Server δ) (session : Option Session) (event : Packet.Event) :
    handle { s with session } event =
      ((s.handle event).1, { (s.handle event).2 with session }) := by
  have hbehind (t : Server δ) : t.handle event = (((alone t.machine).handle event).1,
      ((alone t.machine).handle event).2.behind t) := by
    have h := handle_behind (alone t.machine) t event
    rwa [alone_behind] at h
  rw [hbehind s, hbehind]
  rfl

theorem consume_with_session (s : Server δ) (session : Option Session) (r : Packet.Reader)
    (data : List Byte) :
    consume { s with session } r data = ((s.consume r data).1, (s.consume r data).2.1,
      { (s.consume r data).2.2 with session }) := by
  rw [consume_eq_behind s, consume_eq_behind]
  rfl

/-- Once the session has ended nothing more is dealt with. -/
theorem turnAll_of_not_connected {s : Server δ} (hs : s.isConnected = false)
    {turns : List (Turn δ)} (hturns : ∀ t ∈ turns, ∀ v, t ≠ .host v) :
    s.turnAll turns = s := by
  induction turns with
  | nil => rfl
  | cons t turns ih =>
      obtain ⟨ht, hturns⟩ := List.forall_mem_cons.mp hturns
      show (s.turn t).turnAll turns = s
      rw [turn_of_not_connected hs ht, ih hturns]

/-- Bytes that one poll deals with are dealt with one by one. -/
theorem turnAll_deal {s : Server δ} {r : Packet.Reader} {data rest : List Byte}
    (hs : s.session = some { reader := r, incoming := data ++ rest }) :
    s.turnAll (List.replicate data.length .deal) =
      if (s.consume r data).1 then
        { (s.consume r data).2.2 with
          session := some { reader := (s.consume r data).2.1, incoming := rest } }
      else (s.consume r data).2.2.disconnect := by
  induction data generalizing s r with
  | nil =>
      show s = { s with session := some { reader := r, incoming := rest } }
      rw [← show s.session = some { reader := r, incoming := rest } from hs]
  | cons b data ih =>
      have hread : s.read =
          { s with session := some { reader := (r.feed b).2, incoming := data ++ rest } } := by
        unfold read
        rw [hs]
        rfl
      have hevent : s.event? = (r.feed b).1 := by
        unfold event?
        rw [hs]
        rfl
      show s.dealNext.turnAll (List.replicate data.length .deal) = _
      cases hfeed : r.feed b with
      | mk event next =>
          rw [hfeed] at hread hevent
          cases event with
          | none =>
              rw [dealNext_of_none hevent, hread, ih rfl, consume_of_none hfeed,
                consume_with_session]
              rfl
          | some event =>
              rw [dealNext_of_some hevent, hread, handle_with_session, consume_of_some hfeed]
              by_cases hgoes : (s.handle event).1 = true
              · rw [if_pos hgoes, if_pos hgoes, ih rfl, consume_with_session]
                rfl
              · rw [if_neg hgoes, if_neg hgoes, turnAll_of_not_connected rfl]
                · rfl
                · intro t ht v
                  rw [(List.mem_replicate.mp ht).2]
                  exact nofun

/-- The turns that a poll takes, given what it finds. -/
def pollTurns (s : Server δ) : List (Turn δ) :=
  let unread := (s.session.map Session.incoming).getD []
  .flush :: if s.flush.1 then [] else
    List.replicate (unread.take pollSize).length .deal ++ [.flush]

theorem readSome_eq_turnAll {s : Server δ} {c : Session} (hs : s.session = some c) :
    s.readSome c =
      (s.turnAll (List.replicate (c.incoming.take pollSize).length .deal)).turn .flush := by
  have hsession : s.session = some {
      reader := c.reader
      incoming := c.incoming.take pollSize ++ c.incoming.drop pollSize } := by
    rw [List.take_append_drop, hs]
  rw [turnAll_deal hsession]
  unfold readSome
  cases s.consume c.reader (c.incoming.take pollSize) with
  | mk goesOn left =>
      cases goesOn with
      | true => rfl
      | false => rfl

/-- A poll is several turns, with nobody coming between them. -/
theorem poll_eq_turnAll (s : Server δ) : s.poll = s.turnAll s.pollTurns := by
  cases hs : s.session with
  | none =>
      have hidle : s.poll = s := by
        unfold poll
        rw [hs]
      have hconnected : s.isConnected = false := by
        unfold isConnected
        rw [hs]
        rfl
      rw [hidle, turnAll_of_not_connected hconnected]
      intro t ht v
      unfold pollTurns at ht
      rcases List.mem_cons.mp ht with rfl | ht
      · exact nofun
      · split at ht
        · cases ht
        · rcases List.mem_append.mp ht with ht | ht
          · rw [(List.mem_replicate.mp ht).2]
            exact nofun
          · rw [List.mem_singleton.mp ht]
            exact nofun
  | some c =>
      have hconnected : s.isConnected = true := by
        unfold isConnected
        rw [hs]
        rfl
      have hflush : s.turn .flush = s.flush.2 := if_pos hconnected
      have hflushed : s.flush.2.session = some c := hs
      have hread := readSome_eq_turnAll hflushed
      have hagain : s.flush.2.turn .flush = s.flush.2 := by
        show (if s.isConnected then s.flush.2.flush.2 else s.flush.2) = s.flush.2
        rw [flush_flush, ite_self]
      have hpoll : s.poll = if s.flush.1 then s.flush.2
          else if c.incoming.isEmpty then s.flush.2 else s.flush.2.readSome c := by
        unfold poll
        rw [hs]
        cases s.flush with
        | mk waited s' => cases waited <;> rfl
      unfold pollTurns
      show s.poll = (s.turn .flush).turnAll _
      rw [hpoll, hflush, hs, Option.map_some, Option.getD_some]
      by_cases hwaited : s.flush.1 = true
      · rw [if_pos hwaited, if_pos hwaited]
        rfl
      · rw [if_neg hwaited, if_neg hwaited]
        unfold turnAll at hread ⊢
        rw [List.foldl_append]
        by_cases hnothing : c.incoming = []
        · rw [hnothing, if_pos List.isEmpty_nil]
          exact hagain.symm
        · rw [if_neg (by simpa using hnothing)]
          exact hread

/-! ### Interrupts -/

/-- An interrupt outside a packet leaves the computer halted.  It is a stop of a running one, and
is answered at once otherwise. -/
theorem deal_interrupt {s : Server δ} {rest : List Byte}
    (hs : s.session = some { reader := .outside, incoming := Packet.interrupt :: rest }) :
    let s' := s.turn .deal
    s'.machine.control.mode = .halted ∧ s'.session = some { reader := .outside, incoming := rest } ∧
    (s.machine.control.mode = .running → s.sends .deal = [] ∧
      s.stop? .deal = some { reason := .interrupted, pc := s.machine.pc }) ∧
    (s.machine.control.mode ≠ .running →
      s.sends .deal = [.interrupted] ∧ s.stop? .deal = none) := by
  intro s'
  have hevent : s.event? = some .interrupt := by
    unfold event?
    rw [hs]
    rfl
  have hread : s.read.session = some { reader := .outside, incoming := rest } := by
    unfold read
    rw [hs]
    rfl
  have hdeal : s' = (s.read.handle .interrupt).2 := by
    show s.dealNext = _
    rw [dealNext_of_some hevent, handle_interrupt]
    rfl
  have hsends : s.sends .deal =
      if s.machine.control.isRunning then [] else [.interrupted] := by
    unfold sends
    rw [hevent]
    rfl
  have hstop : s.stop? .deal =
      if s.machine.control.isRunning then some { reason := .interrupted, pc := s.machine.pc }
      else none := by
    unfold stop?
    rw [hevent]
    exact Controller.stop?_halt _ _ _
  rw [hsends, hstop]
  refine ⟨?_, ?_, ?_, ?_⟩
  · rw [hdeal, handle_interrupt]
    exact Controller.mode_halt _ _ _
  · rw [hdeal, session_handle, hread]
  · intro hmode
    have hrunning := Controller.isRunning_iff.mpr hmode
    exact ⟨if_pos hrunning, if_pos hrunning⟩
  · intro hmode
    have hstopped := mt Controller.isRunning_iff.mp hmode
    exact ⟨if_neg hstopped, if_neg hstopped⟩

/-- **Stops are told once, in order and with the right reason.**  With one listener installed, and
nobody collecting, the notices that a history adds are its stops, one for one and in their order;
and a stop is a change of the mode from running to halted, no more and no less.

While a debugger is connected, whatever the host does between the turns of its server, the answers
sent for stops are those that waited before and one for each stop since, in this order, with the
signal of its reason, but for those that still wait; the next flush leaves none waiting, and a poll
begins with one.  An interrupt outside a packet halts the computer: it is a stop to be told of if
the computer ran, and is answered at once if it did not. -/
theorem stops_told_once :
    (∀ (m : Machine δ) (l : Listener) (moves : List (Move δ)), m.control.listener = some l →
      (∀ v ∈ moves, v.steady = true) →
      (m.moveAll moves).control.notices =
        m.control.notices ++ (m.stops moves).map (Stop.notice l)) ∧
    (∀ (m : Machine δ) (v : Move δ), v.steady = true →
      ((m.stop? v).isSome = true ↔
        m.control.mode = .running ∧ (m.move v).control.mode = .halted)) ∧
    (∀ (s : Server δ) (turns : List (Turn δ)), s.machine.control.listener = some .debugger →
      (∀ t ∈ turns, t.steady = true) → (s.turnAll turns).isConnected = true →
      (s.turnAll turns).outgoing = s.outgoing ++ (s.said turns).flatMap Utterance.bytes ∧
      (s.said turns).filterMap Utterance.notice? ++ (s.turnAll turns).waiting =
        s.waiting ++ (s.stops turns).map (Stop.notice .debugger)) ∧
    (∀ (s : Server δ) (t : Turn δ), s.machine.control.listener = some .debugger →
      t.steady = true → (s.turn t).isConnected = true →
      ((s.stop? t).isSome = true ↔ s.machine.control.mode = .running ∧
        (s.turn t).machine.control.mode = .halted)) ∧
    (∀ s : Server δ, s.isConnected = true → (s.turn .flush).waiting = []) ∧
    (∀ s : Server δ, ∃ rest, s.pollTurns = .flush :: rest ∧ s.poll = s.turnAll s.pollTurns) ∧
    (∀ (s : Server δ) (rest : List Byte),
      s.session = some { reader := .outside, incoming := Packet.interrupt :: rest } →
      let s' := s.turn .deal
      s'.machine.control.mode = .halted ∧
      s'.session = some { reader := .outside, incoming := rest } ∧
      (s.machine.control.mode = .running → s.sends .deal = [] ∧
        s.stop? .deal = some { reason := .interrupted, pc := s.machine.pc }) ∧
      (s.machine.control.mode ≠ .running →
        s.sends .deal = [.interrupted] ∧ s.stop? .deal = none)) := by
  refine ⟨?_, ?_, ?_, ?_, ?_, ?_, ?_⟩
  · intro m l moves hm hmoves
    exact (Machine.tells_moveAll hm hmoves).notices
  · intro m v hv
    exact m.isSome_stop?_move hv
  · intro s turns hs hturns hlasts
    have hbalanced := balanced_turnAll hs hturns hlasts
    exact ⟨hbalanced.outgoing, hbalanced.told⟩
  · intro s t hs ht hturn
    exact isSome_stop?_turn hs ht hturn
  · intro s hs
    unfold turn
    rw [if_pos hs]
    exact filter_othersOf s.machine.control.notices
  · intro s
    exact ⟨_, rfl, s.poll_eq_turnAll⟩
  · intro s rest hs
    exact deal_interrupt hs

end

/-- Two interrupts to the standard computer, the first of which finds it stopped.  Before the
second one the host sets it going, a breakpoint stops it, and the host sets it going again. -/
theorem stops_told_once_two_interrupts :
    let s := ({ machine := Machine.fresh {} ({} : Devices) } : Server Devices).connect
    let host (r : Request) : Turn Devices := .host (.act (.ask r))
    let turns : List (Turn Devices) :=
      [.receive [Packet.interrupt, Packet.interrupt], .deal, host (.debuggerInsert 0x0#32),
       host .go, .host (.act .tick), host .go, .deal, .flush]
    s.stops turns =
      [{ reason := .breakpoint 0x0#32, pc := 0x0#32 }, { reason := .interrupted, pc := 0x0#32 }] ∧
    (s.turnAll turns).outgoing = Text.ascii "$S02#B5$S05#B8$S02#B5" := by
  intro s host turns
  have hsteady : ∀ t ∈ turns, t.steady = true := by decide
  have hlasts : (s.turnAll turns).isConnected = true := by decide +kernel
  obtain ⟨hsent, -⟩ := stops_told_once.2.2.1 s turns rfl hsteady hlasts
  refine ⟨by decide +kernel, hsent.trans ?_⟩
  decide +kernel

end Server

end HomeComputer
