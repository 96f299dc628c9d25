/-
Packets.

A packet is a payload between `$` and `#`, followed by two hexadecimal digits: the sum
of its bytes modulo 256.  `frame` writes one and `Reader` reads a stream of them, one
byte at a time, whatever stands between them.

A reader is always in one of four places, and each carries exactly what the rest of
the packet needs: nothing outside a packet, the payload so far inside one, and the
first digit once that has been read.
-/
import HomeComputer.Remote.Hex

namespace HomeComputer

namespace Packet

def opening : Byte := 0x24#8

def closing : Byte := 0x23#8

/-- The byte that, outside a packet, asks a running target to stop. -/
def interrupt : Byte := 0x03#8

/-- The longest payload that is accepted. -/
def maxPayload : Nat := 0x1000

/-- The sum of the bytes, modulo 256. -/
def checksum (payload : List Byte) : Byte := payload.foldl (· + ·) 0#8

/-- The packet with a payload; its checksum is written in upper case. -/
def frame (payload : List Byte) : List Byte :=
  let sum := (checksum payload).toNat
  opening :: payload ++ [closing, Hex.upperDigit (sum / 16), Hex.upperDigit (sum % 16)]

/-- What a reader makes of a stream. -/
inductive Event
  /-- A packet whose checksum is right. -/
  | packet (payload : List Byte)
  /-- A packet that is too long or whose checksum is wrong. -/
  | corrupt
  | interrupt
  deriving DecidableEq, Repr

/-- The payload of a packet as far as it has been read. -/
structure Payload where
  bytes : Array Byte := #[]
  /-- Whether there were more than are accepted. -/
  overflow : Bool := false
  deriving DecidableEq, Repr

namespace Payload

/-- The payload with one more byte, which is lost if there are too many. -/
def push (p : Payload) (b : Byte) : Payload :=
  if p.bytes.size ≥ maxPayload then { p with overflow := true }
  else { p with bytes := p.bytes.push b }

/-- What becomes of the packet, given the value of its two digits. -/
def finish (p : Payload) (sum : Option Byte) : Event :=
  if p.overflow then .corrupt
  else if sum = some (checksum p.bytes.toList) then .packet p.bytes.toList
  else .corrupt

end Payload

/-- Where in a stream of packets a reader is. -/
inductive Reader
  | outside
  | inside (p : Payload)
  /-- Before the first digit of the checksum. -/
  | beforeSum (p : Payload)
  /-- Before the second digit; the first is `none` if it was no digit. -/
  | insideSum (p : Payload) (high : Option Nat)
  deriving DecidableEq, Repr

namespace Reader

/-- What a byte completes, and where the reader is after it. -/
def feed (r : Reader) (b : Byte) : Option Event × Reader :=
  match r with
  | outside =>
      if b = opening then (none, inside {})
      else if b = Packet.interrupt then (some .interrupt, outside)
      else (none, outside)
  | inside p =>
      if b = closing then (none, beforeSum p)
      else if b = opening then (none, inside {})
      else (none, inside (p.push b))
  | beforeSum p => (none, insideSum p (Hex.digit? b))
  | insideSum p high =>
      let sum := do return BitVec.ofNat 8 ((← high) * 16 + (← Hex.digit? b))
      (some (p.finish sum), outside)

/-- What a number of bytes complete, in order, and where the reader is after them. -/
def feedAll (r : Reader) : List Byte → List Event × Reader
  | [] => ([], r)
  | b :: bs =>
      let (event, r) := r.feed b
      let (events, r) := r.feedAll bs
      (event.toList ++ events, r)

end Reader

end Packet

end HomeComputer
