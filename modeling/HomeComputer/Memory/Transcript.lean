/-
A bus that keeps a transcript.

`Transcript β` behaves as the bus it wraps and writes down every read and write with
the arguments it was given.  What a step of the hart asks of its bus is then a list,
which can be shown, counted and compared.
-/
import HomeComputer.Memory.Bus

namespace HomeComputer

/-- One request to a bus. -/
inductive Transaction
  | read (addr : Word)
  | write (addr value : Word) (lanes : Lanes)
  deriving DecidableEq, Repr

/-- A bus and the requests it has seen, oldest first. -/
structure Transcript (β : Type) where
  bus : β
  log : List Transaction := []

namespace Transcript

variable {β : Type}

/-- The same bus with a clean transcript. -/
def cleared (t : Transcript β) : Transcript β := { t with log := [] }

instance [Bus β] : Bus (Transcript β) where
  read t addr :=
    let (answer, bus) := Bus.read t.bus addr
    (answer, { bus, log := t.log ++ [.read addr] })
  peek t addr := Bus.peek t.bus addr
  write t addr value lanes :=
    { bus := Bus.write t.bus addr value lanes, log := t.log ++ [.write addr value lanes] }
  alignment t := Bus.alignment t.bus

end Transcript

end HomeComputer
