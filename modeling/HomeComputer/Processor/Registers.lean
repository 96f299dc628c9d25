/-
The register file.

Thirty-two words, of which the first is meant to read zero for ever.  No slot is
wired: the file refuses a write to register number 0 and stores everything else, so
zero stays in slot 0 because nothing reaches it.

A register number that comes from outside has eight bits.  Only the number 0 itself
is refused; of any other number the low five bits name the slot.  A number taken from
an instruction has five bits to begin with, and there the two rules are one.
-/
import HomeComputer.Isa.Format

namespace HomeComputer

/-- The general registers. -/
structure Registers where
  slots : Vector Word 32 := Vector.replicate 32 0#32
  deriving DecidableEq

namespace Registers

def count : Nat := 32

def zero : Registers := {}

def get (x : Registers) (r : Reg) : Word := x.slots[r.toNat]

/-- The file with `value` in the slot that a number of eight bits names, unless it is 0. -/
def assign (x : Registers) (number : Byte) (value : Word) : Registers :=
  if number = 0#8 then x else { slots := x.slots.set (number.toNat % 32) value (by omega) }

/-- The file with `value` in register `r`; a write to register 0 is dropped. -/
def set (x : Registers) (r : Reg) (value : Word) : Registers := x.assign (r.setWidth 8) value

def toList (x : Registers) : List Word := x.slots.toList

def names : Vector String 32 :=
  #v["zero", "ra", "sp", "gp", "tp", "t0", "t1", "t2",
     "s0", "s1", "a0", "a1", "a2", "a3", "a4", "a5",
     "a6", "a7", "s2", "s3", "s4", "s5", "s6", "s7",
     "s8", "s9", "s10", "s11", "t3", "t4", "t5", "t6"]

def name (r : Reg) : String := names[r.toNat]

theorem length_toList (x : Registers) : x.toList.length = 32 := x.slots.length_toList

/-! ### Reading after writing -/

@[simp] theorem set_zero (x : Registers) (value : Word) : x.set 0#5 value = x := by
  simp [set, assign]

theorem get_set (x : Registers) (r q : Reg) (value : Word) :
    (x.set r value).get q = if r = q ∧ r ≠ 0#5 then value else x.get q := by
  have hr := r.isLt
  have hq := q.isLt
  by_cases h0 : r = 0#5
  · simp [h0]
  · have h8 : r.setWidth 8 ≠ 0#8 := by
      intro h
      apply h0
      have := congrArg BitVec.toNat h
      simp only [BitVec.toNat_setWidth, BitVec.toNat_ofNat] at this
      apply BitVec.eq_of_toNat_eq
      simp only [BitVec.toNat_ofNat]
      omega
    have hslot : (r.setWidth 8).toNat % 32 = r.toNat := by
      simp only [BitVec.toNat_setWidth]
      omega
    simp only [set, assign, h8, if_false, get, hslot, Vector.getElem_set, ne_eq, h0,
      not_false_eq_true, and_true, BitVec.toNat_inj]

end Registers

end HomeComputer
