/-
Words and bytes.

Everything the computer moves is a word of 32 bits; memory is seen as bytes, four
to a word, the lowest address in the lowest bits.  `byte` takes a word apart and
`ofBytes` puts it together again, so a fact about memory can be stated byte by
byte and a fact about the bus word by word.

`bits` and `ofSigned` cut bits out of a word and widen them to one.  They are the common
operations on bit vectors, said so that a constant place and length need no arithmetic
on powers of two when the program runs.
-/

namespace HomeComputer

/-- A register, an address or an instruction. -/
abbrev Word := BitVec 32

-- The order that tables by address are kept in.
instance instTransOrdWord : Std.TransOrd Word := inferInstance

/-- A byte of memory or of a channel. -/
abbrev Byte := BitVec 8

namespace Word

/-- The address of the word that holds the byte at `a`. -/
def aligned (a : Word) : Word := a &&& ~~~3#32

/-- The place of the byte at `a` within its word, from 0 to 3. -/
def lane (a : Word) : Nat := a.toNat % 4

/-- The address `i` bytes after `a`, if it is not past the last.  The count is cut to a word
before it is added, so it starts over at 2 ^ 32. -/
def after? (a : Word) (i : Nat) : Option Word :=
  if BitVec.uaddOverflow a (BitVec.ofNat 32 i) then none else some (a + BitVec.ofNat 32 i)

/-- Byte `i` of a word, counted from the low end. -/
def byte (w : Word) (i : Nat) : Byte := w.extractLsb' (8 * i) 8

/-- The word with the given bytes, low end first. -/
def ofBytes (b₀ b₁ b₂ b₃ : Byte) : Word := b₃ ++ b₂ ++ b₁ ++ b₀

/-- The four bytes of a word, low end first. -/
def bytes (w : Word) : List Byte := [byte w 0, byte w 1, byte w 2, byte w 3]

/-- The `len` bits of a word from the bit `start` on. -/
@[inline] def bits (w : Word) (start len : Nat) : BitVec len :=
  BitVec.ofNatLT ((w.toNat >>> start) % Nat.pow 2 len) (Nat.mod_lt _ (Nat.two_pow_pos len))

/-- The word that means the same as some bits with a sign: the highest of them fills the
places above. -/
@[inline] def ofSigned {n : Nat} (x : BitVec n) : Word :=
  if x.msb then x.setWidth 32 ||| (BitVec.allOnes 32 <<< n) else x.setWidth 32

@[simp] theorem bits_eq_extractLsb' (w : Word) (start len : Nat) :
    w.bits start len = w.extractLsb' start len := rfl

theorem ofSigned_eq_signExtend {n : Nat} (x : BitVec n) :
    ofSigned x = x.signExtend 32 := by
  ext i hi
  have habove (hin : ¬i < n) : x.getLsbD i = false := BitVec.getLsbD_of_ge x i (by omega)
  by_cases hx : x.msb <;> by_cases hin : i < n <;>
    simp [ofSigned, hx, hin, habove, BitVec.getElem_signExtend, -BitVec.reduceAllOnes]

/-- The word that exactly four bytes spell, low end first. -/
def ofBytes? : List Byte → Option Word
  | [b₀, b₁, b₂, b₃] => some (ofBytes b₀ b₁ b₂ b₃)
  | _ => none

theorem ofBytes?_bytes (w : Word) : ofBytes? (bytes w) = some w := by
  simp only [bytes, ofBytes?, ofBytes, byte, Option.some.injEq]
  ext i hi
  simp only [BitVec.getElem_append, BitVec.getElem_extractLsb']
  split
  · simp [BitVec.getLsbD_eq_getElem hi]
  · split
    · rw [show 8 * 1 + (i - 8) = i by omega, BitVec.getLsbD_eq_getElem hi]
    · split
      · rw [show 8 * 2 + (i - 8 - 8) = i by omega, BitVec.getLsbD_eq_getElem hi]
      · rw [show 8 * 3 + (i - 8 - 8 - 8) = i by omega, BitVec.getLsbD_eq_getElem hi]

end Word

end HomeComputer
