/-
Buses that are memories.

A bus may be anything that answers reads and takes writes.  `MemoryBus` singles out those
that behave as a memory of words: some words are there and some are not, a read answers the
word and disturbs nothing, and a write replaces exactly the bytes of the lanes it means, if
the word is there.

Such a memory is also a memory of bytes, four to a word with the lowest address in the
lowest bits.  `byte?` is that view of it, and the law for writes is about that view alone,
so whoever uses the class never meets a mask.
-/
import HomeComputer.Memory.Transcript
import HomeComputer.Proofs.Word

namespace HomeComputer

/-! ### The class -/

/-- The byte at an address of a memory of words. -/
def byteOf (words : Word → Option Word) (c : Word) : Option Byte :=
  (words c.aligned).map (·.byte c.lane)

/-- A bus that behaves as a memory of words. -/
class MemoryBus (β : Type) [Bus β] where
  /-- The word at an aligned address, if there is one. -/
  word? : β → Word → Option Word
  read_answer (b : β) (a : Word) : (Bus.read b a).1 = word? b a.aligned
  word?_read (b : β) (a : Word) : word? (Bus.read b a).2 = word? b
  byteOf_write (b : β) (a value : Word) (lanes : Lanes) (c : Word) :
    byteOf (word? (Bus.write b a value lanes)) c =
      if c.aligned = a.aligned ∧ lanes.getLsbD c.lane = true then
        (byteOf (word? b) c).map fun _ => value.byte c.lane
      else byteOf (word? b) c

namespace MemoryBus

variable {β : Type} [Bus β] [MemoryBus β]

/-- The byte at an address, if its word is there. -/
def byte? (b : β) (c : Word) : Option Byte := byteOf (word? b) c

theorem byte?_write (b : β) (a value : Word) (lanes : Lanes) (c : Word) :
    byte? (Bus.write b a value lanes) c =
      if c.aligned = a.aligned ∧ lanes.getLsbD c.lane = true then
        (byte? b c).map fun _ => value.byte c.lane
      else byte? b c :=
  byteOf_write b a value lanes c

/-- Where no word is there, the hart reads zero bytes. -/
theorem getD_byte? (b : β) (c : Word) :
    (byte? b c).getD 0#8 = Word.byte ((word? b c.aligned).getD 0#32) c.lane := by
  unfold byte? byteOf
  cases word? b c.aligned with
  | none => simp [Word.byte]
  | some w => rfl

/-- A transcript of a memory is a memory. -/
instance : MemoryBus (Transcript β) where
  word? t := word? t.bus
  read_answer t := read_answer t.bus
  word?_read t := word?_read t.bus
  byteOf_write t := byteOf_write t.bus

end MemoryBus

/-! ### Lanes -/

namespace Lanes

theorem getLsbD_span {offset len lane : Nat} (hin : offset + len ≤ 4) (hlane : lane < 4) :
    (span offset len).getLsbD lane = decide (offset ≤ lane ∧ lane < offset + len) := by
  have hall : ∀ offset < 5, ∀ len < 5, ∀ lane < 4, offset + len ≤ 4 →
      (span offset len).getLsbD lane = decide (offset ≤ lane ∧ lane < offset + len) := by
    decide +kernel
  exact hall offset (by omega) len (by omega) lane hlane hin

theorem getLsbD_mask (m : Lanes) {lane j : Nat} (hlane : lane < 4) (hj : j < 8) :
    m.mask.getLsbD (8 * lane + j) = m.getLsbD lane := by
  have hall : ∀ m : Lanes, ∀ lane < 4, ∀ j < 8,
      m.mask.getLsbD (8 * lane + j) = m.getLsbD lane := by
    decide +kernel
  exact hall m lane hlane j hj

/-- Merging takes each byte from where its lane says. -/
theorem byte_merge (m : Lanes) (old new : Word) {lane : Nat} (hlane : lane < 4) :
    (m.merge old new).byte lane =
      if m.getLsbD lane = true then new.byte lane else old.byte lane := by
  apply BitVec.eq_of_getLsbD_eq
  intro j hj
  have hin : 8 * lane + j < 32 := by omega
  unfold merge
  rw [Word.getLsbD_byte, BitVec.getLsbD_or, BitVec.getLsbD_and, BitVec.getLsbD_and,
    BitVec.getLsbD_not, getLsbD_mask m hlane hj]
  by_cases hm : m.getLsbD lane = true
  · rw [if_pos hm, Word.getLsbD_byte]
    simp [hm, hj]
  · rw [if_neg hm, Word.getLsbD_byte]
    simp [hm, hj, hin]

end Lanes

/-! ### A memory with fixed extent -/

/-- A memory whose words are there from the start or not at all. -/
structure FixedMemory where
  /-- The words by their aligned addresses. -/
  words : Word → Option Word
  alignment : Alignment := Alignment.standard

namespace FixedMemory

instance : Bus FixedMemory where
  read m a := (m.words a.aligned, m)
  peek m a := m.words a.aligned
  write m a value lanes := { m with
    words := fun c => if c = a.aligned then (m.words c).map (lanes.merge · value) else m.words c }
  alignment m := m.alignment

instance : MemoryBus FixedMemory where
  word? m := m.words
  read_answer _ _ := rfl
  word?_read _ _ := rfl
  byteOf_write m a value lanes c := by
    show Option.map _ (if c.aligned = a.aligned then _ else _) = _
    unfold byteOf
    by_cases hword : c.aligned = a.aligned
    · rw [if_pos hword]
      cases m.words c.aligned with
      | none => simp
      | some w =>
          have hbyte := Lanes.byte_merge lanes w value c.lane_lt
          by_cases hlane : lanes.getLsbD c.lane = true
          · simp [hbyte, hword, hlane]
          · simp [hbyte, hlane]
    · rw [if_neg hword, if_neg (fun h => hword h.1)]

end FixedMemory

end HomeComputer
