/-
The debug server.

A server serves one client at a time.  What arrives from the client waits in
`incoming` until a poll reads it, at most 4096 bytes at once; what is sent to the
client is added to `outgoing`.  Every packet is acknowledged, its command carried out
on the computer and the answer sent.  What the registers look like as bytes, when all of
them are asked for or set, is left to a `RegisterCodec`.

A stop of the running computer is not answered where it happens.  The controller keeps
a notice, and the next poll, or the end of the one going on, sends it.  A poll that
finds notices waiting sends them and reads nothing.
-/
import HomeComputer.Machine
import HomeComputer.Remote.Command
import HomeComputer.Remote.Packet
import HomeComputer.Remote.RegisterCodec

namespace HomeComputer

/-! ### Answers -/

/-- What is sent back for a command. -/
structure Response where
  /-- The payload of the answer, if there is one. -/
  reply : Option (List Byte)
  close : Bool := false
  deriving DecidableEq, Repr

namespace Response

def text (s : String) : Response := { reply := some (Text.ascii s) }

/-- An answer of bytes, in hexadecimal. -/
def data (bytes : List Byte) : Response := { reply := some (Hex.encode bytes) }

/-- The text for a byte that may not be known. -/
def digits : Option Byte → List Byte
  | some b => Hex.encode [b]
  | none => Text.ascii "xx"

/-- An answer of such bytes. -/
def registers (bytes : List (Option Byte)) : Response := { reply := some (bytes.flatMap digits) }

/-- The answer to a command that was carried out. -/
def ok : Response := text "OK"

/-- The answer to a command that was not. -/
def error : Response := text "E01"

def silent : Response := { reply := none }

end Response

/-- The answer that tells of a stop: the number of a signal. -/
def StopReason.reply : StopReason → String
  | .interrupted => "S02"
  | .breakpoint _ => "S05"
  | .requested => "S05"

/-! ### Commands -/

namespace Machine

variable {δ : Type}

/-- The number under which a debugger knows the program counter. -/
def pcNumber : Nat := 32

def maxRead : Nat := Packet.maxPayload / 2

/-- The registers and the program counter as a debugger knows them. -/
def coreRegisters (m : Machine δ) : CoreRegisters where
  general := m.hart.registers.slots
  pc := m.hart.pc

/-- The registers with values from number `i` on replaced. -/
def setRegistersFrom (x : Registers) (i : Nat) : List Word → Registers
  | [] => x
  | v :: vs => setRegistersFrom (x.set (BitVec.ofNat 5 i) v) (i + 1) vs

/-- The computer with all registers and the program counter set, if the bytes are for
exactly those. -/
def setRegisters? [RegisterCodec] (m : Machine δ) (data : List Byte) : Option (Machine δ) :=
  (RegisterCodec.deserialize data).map fun r =>
    { m with hart := { m.hart with
      registers := setRegistersFrom m.hart.registers 0 r.general.toList, pc := r.pc } }

/-- The register with a number, counting the program counter. -/
def register? (m : Machine δ) (number : Word) : Option Word :=
  if number.toNat = pcNumber then some m.hart.pc
  else if number.toNat < pcNumber then some (m.hart.registers.get (BitVec.ofNat 5 number.toNat))
  else none

/-- The computer with the register of a number set, counting the program counter. -/
def setRegister? (m : Machine δ) (number value : Word) : Option (Machine δ) :=
  if number.toNat = pcNumber then some { m with hart := { m.hart with pc := value } }
  else if number.toNat < pcNumber then
    some { m with hart := { m.hart with
      registers := m.hart.registers.set (BitVec.ofNat 5 number.toNat) value } }
  else none

/-- The computer about to go on at another address, if one is given. -/
def startingAt (m : Machine δ) : Option Word → Machine δ
  | none => m
  | some pc => { m with hart := { m.hart with pc } }

/-- Carries out a change, or refuses it while the hart runs or where there is none. -/
def whileStopped (m : Machine δ) (change : Option (Machine δ)) : Response × Machine δ :=
  match change with
  | none => (.error, m)
  | some changed => if m.control.isRunning then (.error, m) else (.ok, changed)

def dispatch [DeviceAccess δ] [RegisterCodec] (m : Machine δ) : Command → Response × Machine δ
  | .stopReason => (.text StopReason.requested.reply, m)
  | .readRegisters => (.registers (RegisterCodec.serialize m.coreRegisters), m)
  | .writeRegisters data => m.whileStopped (m.setRegisters? data)
  | .readRegister number =>
      match m.register? number with
      | none => (.error, m)
      | some value => (.data value.bytes, m)
  | .writeRegister number value => m.whileStopped (m.setRegister? number value)
  | .readMemory addr len => (.data (m.readMemory addr (min len.toNat maxRead)), m)
  | .writeMemory addr data =>
      match m.writeMemory addr data with
      | (true, m) => (.ok, m)
      | (false, m) => (.error, m)
  | .insertBreakpoint addr => (.ok, { m with control := m.control.debuggerInsert addr })
  | .removeBreakpoint addr => (.ok, { m with control := (m.control.debuggerRemove addr).2 })
  | .resume addr => (.silent, (m.startingAt addr).go)
  | .step addr => (.text StopReason.requested.reply, (m.startingAt addr).stepOnce)
  | .detach => ({ Response.ok with close := true }, m)
  | .kill => ({ Response.silent with close := true }, m)
  | .canned reply => (.text reply, m)
  | .malformed => (.error, m)
  | .unsupported => (.text "", m)

end Machine

/-! ### Sessions -/

/-- A client's side of a session. -/
structure Session where
  /-- Where in the stream of packets the client is. -/
  reader : Packet.Reader := .outside
  /-- What has arrived and was not read. -/
  incoming : List Byte := []
  deriving DecidableEq, Repr

/-- A computer under a debug server. -/
structure Server (δ : Type) where
  machine : Machine δ
  /-- The session, while a client is connected. -/
  session : Option Session := none
  /-- What was sent to the client and not yet delivered, oldest first. -/
  outgoing : List Byte := []

namespace Server

variable {δ : Type}

def isConnected (s : Server δ) : Bool := s.session.isSome

def pollSize : Nat := 4096

def send (s : Server δ) (data : List Byte) : Server δ := { s with outgoing := s.outgoing ++ data }

/-- Sends the packet with a payload to the client. -/
def reply (s : Server δ) (payload : List Byte) : Server δ := s.send (Packet.frame payload)

/-- Everything sent to the client since this was last asked. -/
def deliver (s : Server δ) : List Byte × Server δ := (s.outgoing, { s with outgoing := [] })

/-- A client connects: the computer is halted, and from then on its stops are told. -/
def connect (s : Server δ) : Server δ :=
  let machine := (s.machine.halt .requested).2
  { s with
    machine := { machine with control := (machine.control.collect .debugger).2.listen .debugger }
    session := some {} }

/-- The session ends; what it installed is undone and its notices are lost. -/
def disconnect (s : Server δ) : Server δ :=
  { s with
    machine := { s.machine with control := (s.machine.control.collect .debugger).2.resetSession }
    session := none }

def receive (s : Server δ) (data : List Byte) : Server δ :=
  { s with session := s.session.map fun c => { c with incoming := c.incoming ++ data } }

/-- Sends an answer for every notice that waits.  Answers whether there was one. -/
def flush (s : Server δ) : Bool × Server δ :=
  let (notices, control) := s.machine.control.collect .debugger
  (!notices.isEmpty,
    { s with machine := { s.machine with control } }.send
      (notices.flatMap fun (n : Notice) => Packet.frame (Text.ascii n.reason.reply)))

section
variable [DeviceAccess δ] [RegisterCodec]

/-- Deals with an event.  Answers whether the session goes on. -/
def handle (s : Server δ) : Packet.Event → Bool × Server δ
  | .packet payload =>
      let s := s.send (Text.ascii "+")
      let (response, machine) := s.machine.dispatch (Command.parse payload)
      let s := { s with machine }
      let s := match response.reply with
        | none => s
        | some payload => s.reply payload
      (!response.close, s)
  | .corrupt => (true, s.send (Text.ascii "-"))
  | .interrupt =>
      let (wasRunning, machine) := s.machine.halt .interrupted
      let s := { s with machine }
      (true, if wasRunning then s else s.reply (Text.ascii StopReason.interrupted.reply))

/-- Deals with bytes one by one, up to the one that ends the session.  Answers whether
the session goes on. -/
def consume (s : Server δ) (reader : Packet.Reader) :
    List Byte → Bool × Packet.Reader × Server δ
  | [] => (true, reader, s)
  | b :: bs =>
      match reader.feed b with
      | (none, reader) => s.consume reader bs
      | (some event, reader) =>
          match s.handle event with
          | (false, s) => (false, reader, s)
          | (true, s) => s.consume reader bs

/-- Reads what has arrived, as much as one poll may, and deals with it. -/
def readSome (s : Server δ) (c : Session) : Server δ :=
  match s.consume c.reader (c.incoming.take pollSize) with
  | (false, _, s) => s.disconnect
  | (true, reader, s) =>
      { s with session := some { reader, incoming := c.incoming.drop pollSize } }.flush.2

/-- Serves the client once: sends the notices that wait, or else reads. -/
def poll (s : Server δ) : Server δ :=
  match s.session with
  | none => s
  | some c =>
      match s.flush with
      | (true, s) => s
      | (false, s) => if c.incoming.isEmpty then s else s.readSome c

/-- Whether something has arrived that no poll has read. -/
def hasIncoming (s : Server δ) : Bool := s.session.any fun c => !c.incoming.isEmpty

/-- Up to `polls` polls, while something that has arrived was not read. -/
def pollAll (s : Server δ) : Nat → Server δ
  | 0 => s
  | polls + 1 => if s.hasIncoming then s.poll.pollAll polls else s

/-- Serves bytes that arrive from the client until all of them are read or the session
has ended.  One poll may be spent on notices and each of the others reads a byte at
least. -/
def serve (s : Server δ) (data : List Byte) : Server δ :=
  let s := s.receive data
  s.pollAll ((s.session.map fun c => c.incoming.length).getD 0 + 1)

end

end Server

end HomeComputer
