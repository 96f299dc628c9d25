/-
The codec that a debugger for this architecture expects.

It writes all registers one after the other, and reads no more and no fewer than that.
-/
import HomeComputer.Remote.RegisterCodec

namespace HomeComputer

namespace RegisterCodec

/-- The words that bytes spell, four at a time, if there are no bytes over. -/
def words? : List Byte → Option (List Word)
  | [] => some []
  | b₀ :: b₁ :: b₂ :: b₃ :: rest => (words? rest).map (Word.ofBytes b₀ b₁ b₂ b₃ :: ·)
  | _ => none

instance littleEndian : RegisterCodec where
  serialize r := r.bytes.map some
  deserialize data := (words? data).bind CoreRegisters.ofWords?

end RegisterCodec

end HomeComputer
