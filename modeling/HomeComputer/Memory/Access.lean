/-
Loads and stores of bytes, half words and words.

The hart addresses bytes, the bus carries words.  A load shifts what it wants down
from the word that holds its first byte and, when it runs over the end of that word,
brings the rest in from the next one.  A store does the same the other way round,
and leaves it to the lanes which bytes of each word are meant.

Where nothing answers, the hart reads zero.
-/
import HomeComputer.Memory.Bus

namespace HomeComputer

namespace Access

variable {β : Type} [Bus β]

/-- The word at an address, or zero where nothing answers. -/
def readWord (bus : β) (addr : Word) : Word × β :=
  let (answer, bus) := Bus.read bus addr
  (answer.getD 0#32, bus)

/-- The instruction word at `pc`; instructions are always aligned. -/
def fetch (bus : β) (pc : Word) : Word × β :=
  readWord bus pc.aligned

/-- The value of width `w` at `addr`, with zeros above it. -/
def load (bus : β) (addr : Word) (w : Width) : Word × β :=
  let addr := (Bus.alignment bus).place addr w
  let base := addr.aligned
  let offset := addr.lane
  let (first, bus) := readWord bus base
  let low := first >>> (8 * offset)
  if offset + w.bytes > 4 then
    let (second, bus) := readWord bus (base + 4#32)
    ((low ||| second <<< (8 * (4 - offset))) &&& w.mask, bus)
  else
    (low &&& w.mask, bus)

/-- What a store puts on the lanes of a single word.  A byte goes to every lane and an
even half word to both halves, and the lanes alone choose. -/
def spread (value : Word) (w : Width) (offset : Nat) : Word :=
  match w, offset % 2 with
  | .byte, _ => value * 0x01010101#32
  | .half, 0 => value * 0x00010001#32
  | _, _ => value <<< (8 * offset)

/-- The bus after the low bytes of `value` were stored at `addr`. -/
def store (bus : β) (addr value : Word) (w : Width) : β :=
  let addr := (Bus.alignment bus).place addr w
  let base := addr.aligned
  let offset := addr.lane
  let value := value &&& w.mask
  if offset + w.bytes ≤ 4 then
    Bus.write bus base (spread value w offset) (Lanes.span offset w.bytes)
  else
    let first := 4 - offset
    let bus := Bus.write bus base (value <<< (8 * offset)) (Lanes.span offset first)
    Bus.write bus (base + 4#32) (value >>> (8 * first)) (Lanes.span 0 (w.bytes - first))

end Access

end HomeComputer
