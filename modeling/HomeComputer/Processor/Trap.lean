/-
Traps.

What can interrupt the plain sequence of instructions: an exception that the
instruction itself raises, or an interrupt taken after it.  At most one of them
happens to an instruction.
-/
import HomeComputer.Word

namespace HomeComputer

/-- What an instruction can raise. -/
inductive Exception
  | illegalInstruction
  | breakpoint
  | environmentCall
  deriving DecidableEq, Repr

namespace Exception

def code : Exception → Word
  | illegalInstruction => 2#32
  | breakpoint => 3#32
  | environmentCall => 11#32

def description : Exception → String
  | illegalInstruction => "illegal instruction"
  | breakpoint => "breakpoint"
  | environmentCall => "environment call"

end Exception

/-- What an instruction ended with. -/
inductive Trap
  | none
  | exception (e : Exception)
  /-- An interrupt, by the number of its line. -/
  | interrupt (line : Byte)
  deriving DecidableEq, Repr

namespace Trap

/-- The bit that marks the cause of an interrupt. -/
def interruptFlag : Word := 0x80000000#32

/-- The cause to record, if there was a trap. -/
def cause? : Trap → Option Word
  | none => .none
  | exception e => some e.code
  | interrupt line => some (interruptFlag ||| line.setWidth 32)

def description : Trap → String
  | none => "none"
  | exception e => e.description
  | interrupt line => "interrupt " ++ toString line.toNat

end Trap

end HomeComputer
