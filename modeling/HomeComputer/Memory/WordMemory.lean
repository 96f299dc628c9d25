/-
A bare word memory.

The simplest bus: a finite table of words.  A word is there once it has been put or
written.  Whoever goes through the bus reads and writes at aligned addresses only; a
word put at an address that is no multiple of four stays where it was put, is listed
with the others and is never read.  Equality of two such memories is equality of what
they hold, so the table is kept as an extensional map.
-/
import HomeComputer.Memory.Bus
import Std.Data.ExtTreeMap

namespace HomeComputer

/-- Words by their addresses. -/
structure WordMemory where
  words : Std.ExtTreeMap Word Word := {}
  alignment : Alignment := Alignment.standard

namespace WordMemory

/-- The word that the byte at an address is part of. -/
def get? (m : WordMemory) (addr : Word) : Option Word := m.words[addr.aligned]?

/-- The memory with a word put at exactly the address given. -/
def put (m : WordMemory) (addr value : Word) : WordMemory :=
  { m with words := m.words.insert addr value }

/-- The memory with words put one after the other from `addr` on. -/
def putAll (m : WordMemory) (addr : Word) : List Word → WordMemory
  | [] => m
  | w :: ws => (m.put addr w).putAll (addr + 4#32) ws

def toList (m : WordMemory) : List (Word × Word) := m.words.toList

instance : Bus WordMemory where
  read m addr := (m.get? addr, m)
  peek m addr := m.get? addr
  write m addr value lanes := m.put addr.aligned (lanes.merge ((m.get? addr).getD 0#32) value)
  alignment m := m.alignment

end WordMemory

end HomeComputer
