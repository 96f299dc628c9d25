/-
The computer.

A hart, the address map it works on and the controller that paces it.  `tick` is one
instruction boundary under the controller's eye, `stepOnce` one instruction whatever
the controller says, and `run` a number of ticks up to the first that does not
complete an instruction.

Before each instruction the keyboard's interrupt line is copied into the hart's
pending lines, so an instruction sees the line as it stood when it began.
-/
import HomeComputer.Assembly
import HomeComputer.Control.Controller
import HomeComputer.Elf
import HomeComputer.Processor.Hart

namespace HomeComputer

/-- How a computer is built. -/
structure Config where
  ramSize : Word := AddressMap.ramSize
  alignment : Alignment := Alignment.standard
  /-- Where execution starts after a reset. -/
  resetPc : Word := AddressMap.bootStart
  isa : List Extension := Extension.full

/-- A computer with devices `δ` behind its windows. -/
structure Machine (δ : Type) where
  hart : Hart
  map : AddressMap δ
  control : Controller := {}
  /-- Where execution starts after a reset. -/
  resetPc : Word

/-- What became of an instruction boundary. -/
inductive Tick
  /-- The hart is halted; nothing ran. -/
  | idle
  | retired
  /-- A breakpoint stopped the hart before the instruction at this address. -/
  | stopped (pc : Word)
  deriving DecidableEq, Repr

/-- What became of a number of instruction boundaries. -/
structure RunOutcome where
  retired : Nat := 0
  breakpoint : Option Word := none
  deriving DecidableEq, Repr

namespace Machine

variable {δ : Type}

/-- A computer with its memory clear. -/
def new (config : Config) (devices : δ) : Except Fault (Machine δ) := do
  let map ← AddressMap.standard config.ramSize config.alignment devices
  return {
    hart := { pc := config.resetPc, isa := config.isa }
    map
    resetPc := config.resetPc }

def pc (m : Machine δ) : Word := m.hart.pc

def devices (m : Machine δ) : δ := m.map.devices

def mapDevices (m : Machine δ) (f : δ → δ) : Machine δ :=
  { m with map := { m.map with devices := f m.map.devices } }

/-! ### Running -/

section
variable [DeviceAccess δ]

/-- The hart with the pending bit of the keyboard as the devices have it. -/
def sampled (m : Machine δ) : Hart :=
  m.hart.setPending (BitVec.ofNat 8 Devices.keyboardLine)
    (m.map.lines.getLsbD Devices.keyboardLine)

/-- Runs one instruction, whatever the controller's mode and breakpoints. -/
def stepOnce (m : Machine δ) : Machine δ :=
  let (hart, map) := m.sampled.step m.map
  { m with hart, map, control := m.control.retired }

/-- One instruction boundary, as the controller allows. -/
def tick (m : Machine δ) : Tick × Machine δ :=
  match m.control.mode with
  | .halted => (.idle, m)
  | .step => (.retired, m.stepOnce)
  | .running =>
      match m.control.shouldBreak m.pc with
      | (true, control) => (.stopped m.pc, { m with control })
      | (false, control) => (.retired, { m with control }.stepOnce)

/-- Up to `budget` instruction boundaries, of which `retired` have gone before. -/
def runFrom (m : Machine δ) (retired : Nat) : Nat → RunOutcome × Machine δ
  | 0 => ({ retired }, m)
  | budget + 1 =>
      match m.tick with
      | (.idle, m) => ({ retired }, m)
      | (.stopped pc, m) => ({ retired, breakpoint := some pc }, m)
      | (.retired, m) => m.runFrom (retired + 1) budget

def run (m : Machine δ) (budget : Nat) : RunOutcome × Machine δ := m.runFrom 0 budget

end

/-! ### The host's controls -/

def go (m : Machine δ) : Machine δ := { m with control := m.control.go }

def stepInto (m : Machine δ) : Machine δ := { m with control := m.control.stepInto }

/-- Stops the hart for a reason.  Answers whether it was running. -/
def halt (m : Machine δ) (reason : StopReason) : Bool × Machine δ :=
  let (wasRunning, control) := m.control.halt reason m.pc
  (wasRunning, { m with control })

/-- Clears the hart and halts; memory, devices and breakpoints stay. -/
def reset (m : Machine δ) : Machine δ :=
  let m := { m with hart := { pc := m.resetPc, isa := m.hart.isa } }
  (m.halt .requested).2

/-- Loads an executable image, or any other at the reset address, and makes the hart
start there.  Memory may have changed although the image was refused. -/
def loadImage (m : Machine δ) (image : List Byte) : Except Fault Word × Machine δ :=
  let file := image.toArray
  let (result, map) : Except Fault Word × AddressMap δ :=
    if Image.isElf file then Elf.load file m.map
    else
      match m.map.load m.resetPc image with
      | .error fault => (.error fault, m.map)
      | .ok map => (.ok m.resetPc, map)
  match result with
  | .error fault => (.error fault, { m with map })
  | .ok entry => (.ok entry, { m with map, hart := { m.hart with pc := entry } })

/-! ### Looking at memory and changing it -/

section
variable [DeviceAccess δ]

/-- The byte at an address, if anything is there. -/
def byteAt? (m : Machine δ) (addr : Word) : Option Byte :=
  (m.map.peek addr).map fun w => w.byte addr.lane

/-- Up to `len` bytes of a range that begins at `addr`, after the first `done` of it, as far as
there are any. -/
def readFrom (m : Machine δ) (addr : Word) (done : Nat) : Nat → List Byte
  | 0 => []
  | len + 1 =>
      match (addr.after? done).bind m.byteAt? with
      | none => []
      | some b => b :: m.readFrom addr (done + 1) len

/-- Up to `len` bytes from an address on, as far as there are any. -/
def readMemory (m : Machine δ) (addr : Word) (len : Nat) : List Byte := m.readFrom addr 0 len

/-- The most bytes that room can be made for. -/
def maxRoom : Nat := 0x7fffffffffffffff

/-- The same for a range of any length.  Room for all of it is made first, and there is no answer
where there cannot be so much. -/
def readMemory? (m : Machine δ) (addr : Word) (len : Nat) : Option (List Byte) :=
  if len ≤ maxRoom then some (m.readMemory addr len) else none

/-- Writes bytes of a range that begins at `addr`, after the first `done` of it, up to the first
that has nowhere to go. -/
def writeFrom (m : Machine δ) (addr : Word) (done : Nat) : List Byte → Bool × Machine δ
  | [] => (true, m)
  | b :: bs =>
      match (addr.after? done).bind (m.map.poke? · b) with
      | none => (false, m)
      | some map => { m with map }.writeFrom addr (done + 1) bs

/-- Writes bytes from an address on, up to the first that has nowhere to go.  Answers
whether all were written. -/
def writeMemory (m : Machine δ) (addr : Word) (data : List Byte) : Bool × Machine δ :=
  m.writeFrom addr 0 data

/-- The assembly text of the word at an aligned address. -/
def disassembleAt (m : Machine δ) (addr : Word) : Option String :=
  if addr.lane = 0 then (m.map.peek addr).map (disassemble · addr) else none

end

end Machine

end HomeComputer
