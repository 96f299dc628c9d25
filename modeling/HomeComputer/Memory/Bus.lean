/-
The word-wide bus.

Everything behind the bus is a word wide.  A store of less than a word names the
byte lanes it means, and `Lanes.merge` says what the word then holds: the new bytes
in those lanes and the old ones in the rest.

`Bus` is all that a hart knows about memory.  Reading may disturb what is read, as
when a device hands over its next byte; looking never does, which is why `peek`
has no new bus among its results.
-/
import HomeComputer.Word

namespace HomeComputer

/-! ### Byte lanes -/

/-- The byte lanes of a word that a write means, lane 0 in the lowest bit. -/
abbrev Lanes := BitVec 4

namespace Lanes

def all : Lanes := 0b1111#4

/-- The `len` lanes from `offset` on. -/
def span (offset len : Nat) : Lanes :=
  BitVec.ofNatLT ((((1 <<< len) - 1) <<< offset) % 16) (Nat.mod_lt _ (by decide))

/-- The bits of a word that the lanes cover. -/
def mask (m : Lanes) : Word :=
  (if m.getLsbD 3 then 0xff000000#32 else 0#32) |||
    (if m.getLsbD 2 then 0x00ff0000#32 else 0#32) |||
    (if m.getLsbD 1 then 0x0000ff00#32 else 0#32) |||
    (if m.getLsbD 0 then 0x000000ff#32 else 0#32)

/-- The word with the lanes of `new` and the rest of `old`. -/
def merge (m : Lanes) (old new : Word) : Word := (old &&& ~~~m.mask) ||| (new &&& m.mask)

end Lanes

/-! ### Widths and alignment -/

/-- How much a load or store moves. -/
inductive Width
  | byte | half | word
  deriving DecidableEq, Repr

namespace Width

def bytes : Width → Nat
  | byte => 1 | half => 2 | word => 4

/-- The bits of a word that a value of this width occupies. -/
def mask : Width → Word
  | byte => 0xff#32 | half => 0xffff#32 | word => 0xffffffff#32

end Width

/-- What becomes of an access whose address is no multiple of its width. -/
inductive Alignment
  /-- It is carried out at that address, in two words where it has to be. -/
  | split
  /-- It is carried out at the next lower multiple. -/
  | force
  deriving DecidableEq, Repr

namespace Alignment

/-- The policy of a bus that does not choose one. -/
def standard : Alignment := force

def name : Alignment → String
  | split => "split" | force => "force"

def ofName? (s : String) : Option Alignment := [split, force].find? (·.name == s)

/-- The address at which an access of width `w` to `a` is carried out. -/
def place : Alignment → Word → Width → Word
  | split, a, _ => a
  | force, a, w => a &&& ~~~(BitVec.ofNat 32 (w.bytes - 1))

end Alignment

/-! ### The bus -/

/-- Word-wide access to memory and devices; the low two bits of an address are ignored. -/
class Bus (β : Type) where
  /-- The word at an address, if anything is there, and the bus after handing it over. -/
  read : β → Word → Option Word × β
  /-- The word at an address, without disturbing anything. -/
  peek : β → Word → Option Word
  /-- The bus after the lanes of a value were written; where nothing takes them they are dropped. -/
  write : β → Word → Word → Lanes → β
  alignment : β → Alignment := fun _ => Alignment.standard

end HomeComputer
