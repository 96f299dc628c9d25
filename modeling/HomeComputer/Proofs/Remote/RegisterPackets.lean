/-
The debugger's four ways to the registers agree.

The registers and the program counter are 33 words, `registerWords`.  Asking for one is looking
into that list and setting one is replacing an element of it, except that the first cannot be
replaced; asking for all and setting all are the same with the whole list.  So all four commands
are described by what they do to the list, and a computer on which only registers were set is
known by its list (`OnlyRegisters.eq`).

How all registers are spelled is up to the codec, and only a lawful one spells them as this list.
In an answer every word takes eight digits.  An element of the list is therefore a group of eight
digits, and replacing it replaces this group and no other digit (`group_shown`, `shown_set`).
-/
import HomeComputer.Proofs.Machine.ZeroRegister
import HomeComputer.Proofs.Remote.Grammar
import HomeComputer.Proofs.Remote.Replies

namespace HomeComputer

/-! ### Lists of pieces of one length -/

section Pieces

variable {α β : Type} {f : α → List β} {k : Nat}

end Pieces

/-! ### Words in messages -/

namespace Hex

end Hex

namespace Machine

/-! ### The list of registers -/

variable {δ : Type}

/-- The registers and the program counter. -/
def registerWords (m : Machine δ) : List Word := m.hart.registers.toList ++ [m.hart.pc]

/-- The text that all registers are shown as. -/
def shown (m : Machine δ) : List Byte := Hex.encode (m.registerWords.flatMap Word.bytes)

/-- From `m` to `m'` nothing has changed but registers and the program counter. -/
def OnlyRegisters (m m' : Machine δ) : Prop :=
  ∃ (registers : Registers) (pc : Word), m' = { m with hart := { m.hart with registers, pc } }

theorem OnlyRegisters.eq {m m' : Machine δ} (h : m.OnlyRegisters m')
    (hwords : m'.registerWords = m.registerWords) : m' = m := by
  obtain ⟨registers, pc, rfl⟩ := h
  obtain ⟨hslots, hpc⟩ := List.append_inj' hwords rfl
  obtain rfl : pc = m.hart.pc := List.singleton_inj.mp hpc
  obtain rfl : registers = m.hart.registers := by
    cases registers
    exact congrArg Registers.mk (Vector.toList_inj.mp hslots)
  rfl

end Machine

namespace Registers

end Registers

namespace Machine

section
variable [RegisterCodec]

end

section
variable [DeviceAccess δ] [RegisterCodec]

/-- What a payload is answered, and what becomes of the computer. -/
def answer (m : Machine δ) (payload : List Byte) : Response × Machine δ :=
  m.dispatch (Command.parse payload)

end

end Machine

end HomeComputer
