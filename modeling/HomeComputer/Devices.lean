/-
The devices behind the device window.

A keyboard hands over keys one at a time, a byte link carries data to and from the
host, and a joypad shows its buttons.  The host works on the queues directly; the
guest sees them as cells, each a word at a fixed address.

`DeviceAccess` is what an address map asks of whatever answers in its device windows.
As on the bus, `read` may take something away and `peek` never does.  A map may have
several windows, and a request names the one it came through by its first address; the
standard devices answer alike through all of them.
-/
import HomeComputer.Memory.Bus
import HomeComputer.Queue

namespace HomeComputer

/-- Devices that answer in windows of the address space.  The first address given is the
window's, the second is the cell's own, absolute and aligned. -/
class DeviceAccess (δ : Type) where
  /-- The word in a cell, if one answers, and the devices afterwards. -/
  read : δ → Word → Word → Option Word × δ
  /-- The word in a cell, without disturbing anything. -/
  peek : δ → Word → Word → Option Word
  /-- The devices after the lanes of a value were written to a cell. -/
  write : δ → Word → Word → Word → Lanes → δ
  /-- The interrupt lines that are raised through a window. -/
  lines : δ → Word → Word

/-- The state of the standard devices. -/
structure Devices where
  keys : Queue Byte := .empty
  /-- Bytes from the host that the guest has not read. -/
  received : Queue Byte := .empty
  /-- Bytes from the guest that the host has not taken. -/
  sent : Queue Byte := .empty
  buttons : Word := 0#32
  deriving DecidableEq

namespace Devices

/-! ### The host's side -/

def pushKey (d : Devices) (key : Byte) : Devices := { d with keys := d.keys.push key }

def popKey (d : Devices) : Option Byte × Devices :=
  let (key, keys) := d.keys.pop
  (key, { d with keys })

def send (d : Devices) (data : List Byte) : Devices :=
  { d with received := d.received.pushAll data }

/-- The host takes everything the guest has sent. -/
def takeSent (d : Devices) : List Byte × Devices := (d.sent.toList, { d with sent := .empty })

def setButtons (d : Devices) (buttons : Word) : Devices := { d with buttons }

/-! ### The guest's side -/

def windowStart : Word := 0x10000000#32

def windowSize : Word := 0x00001000#32

/-- State of the byte link; writing resets it. -/
def linkControl : Word := windowStart

/-- Data of the byte link: reading takes a byte, writing sends one. -/
def linkData : Word := windowStart + 0x04#32

/-- The keyboard: reading takes a key. -/
def keyboardPop : Word := windowStart + 0x10#32

def keyboardStatus : Word := windowStart + 0x14#32

def joypad : Word := windowStart + 0x20#32

/-- The bit of `linkControl` that resets the link when written. -/
def linkReset : Word := 0x80000000#32

def keyboardLine : Nat := 11

/-- The state of the link: bytes can always be sent, and bit 0 tells whether one waits. -/
def linkStatus (d : Devices) : Word := if d.received.isEmpty then 0b10#32 else 0b11#32

/-- A byte as a cell shows it: as a word, or zero if there is none. -/
def cellOf (b : Option Byte) : Word := (b.getD 0#8).setWidth 32

/-- The byte at the front of a queue as a word, or zero if nothing waits. -/
def front (queue : Queue Byte) : Word := cellOf queue.head?

def peek (d : Devices) (addr : Word) : Option Word :=
  if addr = linkControl then some d.linkStatus
  else if addr = linkData then some (front d.received)
  else if addr = keyboardPop then some (front d.keys)
  else if addr = keyboardStatus then some (BitVec.ofNat 32 d.keys.size)
  else if addr = joypad then some d.buttons
  else none

/-- What reading a cell hands over, and the devices afterwards.  Two cells take a byte from
their queue; at the others a read is a look. -/
def read (d : Devices) (addr : Word) : Option Word × Devices :=
  if addr = linkData then
    let (b, received) := d.received.pop
    (some (cellOf b), { d with received })
  else if addr = keyboardPop then
    let (key, d) := d.popKey
    (some (cellOf key), d)
  else (d.peek addr, d)

/-- The devices after the lanes of a value were written to a cell. -/
def write (d : Devices) (addr value : Word) (lanes : Lanes) : Devices :=
  if addr = linkData ∧ lanes.getLsbD 0 then { d with sent := d.sent.push (Word.byte value 0) }
  else if addr = linkControl ∧ lanes.getLsbD 3 ∧ value &&& linkReset ≠ 0#32 then
    { d with received := {}, sent := {} }
  else d

/-- The interrupt lines that are raised: the keyboard's while a key waits. -/
def lines (d : Devices) : Word := if d.keys.isEmpty then 0#32 else 1#32 <<< keyboardLine

instance : DeviceAccess Devices where
  read d _ addr := d.read addr
  peek d _ addr := d.peek addr
  write d _ addr value lanes := d.write addr value lanes
  lines d _ := d.lines

end Devices

end HomeComputer
