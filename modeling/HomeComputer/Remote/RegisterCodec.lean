/-
All registers as one run of bytes.

A debugger that asks for all registers at once, or sets them, gets or sends a run of bytes.  How
they are laid out there is the business of a `RegisterCodec`, which comes from outside: the server
hands it the registers or the bytes and goes by what it answers.
-/
import HomeComputer.Word

namespace HomeComputer

/-- The registers that a debugger knows. -/
structure CoreRegisters where
  general : Vector Word 32
  pc : Word
  deriving DecidableEq

namespace CoreRegisters

/-- The registers in the order of their numbers, the program counter last. -/
def words (r : CoreRegisters) : List Word := r.general.toList ++ [r.pc]

/-- The registers that words are the contents of, if there are as many. -/
def ofWords? (ws : List Word) : Option CoreRegisters :=
  if h : ws.length = 33 then
    some { general := ⟨(ws.take 32).toArray, by simp [h]⟩, pc := ws[32] }
  else none

/-- The bytes of the registers in this order, of each the low byte first. -/
def bytes (r : CoreRegisters) : List Byte := r.words.flatMap Word.bytes

end CoreRegisters

/-- How all registers are written as bytes and read from them. -/
class RegisterCodec where
  /-- The bytes for the registers, those among them that are known. -/
  serialize : CoreRegisters → List (Option Byte)
  /-- The registers that bytes are for, if they are for registers at all. -/
  deserialize : List Byte → Option CoreRegisters

end HomeComputer
