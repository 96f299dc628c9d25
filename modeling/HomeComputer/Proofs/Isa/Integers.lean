/-
The library's cuts and operations agree with the manual's integers.

Each immediate has the signed value that the manual names, and each operation of the
integer instructions gives the word of the integer that the manual names.  An immediate is
a chain of appended pieces; its signed value is the chain with each piece at its weight, and
only the topmost piece, a single bit, has a sign.  An operation on words is compared by its
signed or its unsigned value, whichever the operation itself goes by.
-/
import HomeComputer.Isa.Operation
import HomeComputer.Proofs.Isa.Manual
import HomeComputer.Proofs.Word

namespace HomeComputer

namespace Manual

/-! ### Fields -/

theorem toNat_bits (w : Word) (start len : Nat) : (w.bits start len).toNat = field w start len :=
  Word.toNat_bits w start len

/-- A field has the value that its number says. -/
theorem bits_eq {w : Word} {start len n : Nat} (h : field w start len = n) :
    w.bits start len = BitVec.ofNat len n := by
  rw [← h, ← toNat_bits, BitVec.ofNat_toNat, BitVec.setWidth_eq]

theorem opcode_eq {w : Word} {n : Nat} (h : opcode w = n) : w.opcode = BitVec.ofNat 7 n :=
  bits_eq h

theorem funct3_eq {w : Word} {n : Nat} (h : funct3 w = n) : w.funct3 = BitVec.ofNat 3 n :=
  bits_eq h

theorem funct7_eq {w : Word} {n : Nat} (h : funct7 w = n) : w.funct7 = BitVec.ofNat 7 n :=
  bits_eq h

/-- The topmost piece of an immediate is the sign, and counts negative. -/
theorem toInt_sign (w : Word) : (w.bits 31 1).toInt = -(field w 31 1 : Int) := by
  have hfield : field w 31 1 < 2 := Nat.mod_lt _ (by decide)
  rw [BitVec.toInt_eq_toNat_cond, toNat_bits]
  split <;> omega

/-! ### Immediates -/

theorem toInt_signedImmediate (imm : BitVec 12) : (signedImmediate imm).toInt = imm.toInt := by
  unfold signedImmediate
  rw [Word.ofSigned_eq_signExtend, BitVec.toInt_signExtend_of_le (by decide)]

theorem toInt_immI (w : Word) : (signedImmediate (w.bits 20 12)).toInt = immI w := by
  rw [toInt_signedImmediate, BitVec.toInt_eq_toNat_cond, toNat_bits]
  unfold immI field
  have hw := w.isLt
  split <;> omega

theorem toInt_immS (w : Word) :
    (signedImmediate (w.bits 25 7 ++ w.bits 7 5)).toInt = immS w := by
  rw [toInt_signedImmediate, BitVec.toInt_append, if_neg (by decide),
    BitVec.toInt_eq_toNat_cond, toNat_bits, toNat_bits]
  unfold immS field
  have hw := w.isLt
  split <;> omega

theorem toInt_immB (w : Word) :
    (branchOffset (w.bits 31 1 ++ w.bits 7 1 ++ w.bits 25 6 ++ w.bits 8 4)).toInt = immB w := by
  unfold branchOffset
  rw [Word.ofSigned_eq_signExtend, BitVec.toInt_signExtend_of_le (by decide),
    BitVec.toInt_append_zero, BitVec.toInt_append, if_neg (by decide), BitVec.toInt_append,
    if_neg (by decide), BitVec.toInt_append, if_neg (by decide), toInt_sign]
  simp only [toNat_bits]
  unfold immB
  omega

theorem toInt_immU (w : Word) : (upperImmediate (w.bits 12 20)).toInt = immU w := by
  unfold upperImmediate
  rw [BitVec.toInt_append_zero, BitVec.toInt_eq_toNat_cond, toNat_bits]
  unfold immU field
  have hw := w.isLt
  split <;> omega

theorem toInt_immJ (w : Word) :
    (jumpOffset (w.bits 31 1 ++ w.bits 12 8 ++ w.bits 20 1 ++ w.bits 21 10)).toInt = immJ w := by
  unfold jumpOffset
  rw [Word.ofSigned_eq_signExtend, BitVec.toInt_signExtend_of_le (by decide),
    BitVec.toInt_append_zero, BitVec.toInt_append, if_neg (by decide), BitVec.toInt_append,
    if_neg (by decide), BitVec.toInt_append, if_neg (by decide), toInt_sign]
  simp only [toNat_bits]
  unfold immJ
  omega

/-! ### Arithmetic -/

theorem unsigned_toInt (a : Word) : unsigned a.toInt = a.toNat := by
  unfold unsigned
  have := a.isLt
  rw [BitVec.toInt_eq_toNat_cond]
  split <;> omega

theorem amount_toInt (b : Word) : amount b.toInt = b.toNat % 32 := by
  unfold amount
  rw [unsigned_toInt]

/-- A word is given by its unsigned value. -/
theorem eq_ofInt_of_toNat {a : Word} {n : Nat} (h : a.toNat = n) :
    a = BitVec.ofInt 32 (n : Int) := by
  rw [BitVec.ofInt_natCast, ← h, BitVec.ofNat_toNat, BitVec.setWidth_eq]

theorem add_eq_ofInt (a b : Word) : a + b = BitVec.ofInt 32 (a.toInt + b.toInt) := by
  rw [BitVec.ofInt_add, BitVec.ofInt_toInt, BitVec.ofInt_toInt]

theorem sub_eq_ofInt (a b : Word) : a - b = BitVec.ofInt 32 (a.toInt - b.toInt) := by
  rw [Int.sub_eq_add_neg, BitVec.ofInt_add, BitVec.ofInt_neg, BitVec.ofInt_toInt,
    BitVec.ofInt_toInt, BitVec.sub_eq_add_neg]

theorem sll_eq_ofInt (a b : Word) :
    Alu.sll.apply a b = BitVec.ofInt 32 (sll a.toInt b.toInt) := by
  have hpow : (2 : Int) ^ (b.toNat % 32) = ((2 ^ (b.toNat % 32) : Nat) : Int) := by simp
  show a <<< (b.toNat % 32) = _
  unfold sll
  rw [amount_toInt, BitVec.ofInt_mul, BitVec.ofInt_toInt, hpow, BitVec.ofInt_natCast,
    BitVec.shiftLeft_eq_mul_twoPow]
  congr 1
  apply BitVec.eq_of_toNat_eq
  rw [BitVec.toNat_twoPow, BitVec.toNat_ofNat]

theorem slt_eq_ofInt (a b : Word) :
    Alu.slt.apply a b = BitVec.ofInt 32 (slt a.toInt b.toInt) := by
  show (if a.slt b then 1#32 else 0#32) = _
  unfold slt
  by_cases h : a.toInt < b.toInt
  · rw [if_pos (BitVec.slt_iff_toInt_lt.mpr h), if_pos h]
    rfl
  · rw [if_neg (mt BitVec.slt_iff_toInt_lt.mp h), if_neg h]
    rfl

theorem sltu_eq_ofInt (a b : Word) :
    Alu.sltu.apply a b = BitVec.ofInt 32 (sltu a.toInt b.toInt) := by
  show (if a.ult b then 1#32 else 0#32) = _
  unfold sltu
  rw [unsigned_toInt, unsigned_toInt]
  by_cases h : a.toNat < b.toNat
  · rw [if_pos (BitVec.ult_iff_toNat_lt.mpr h), if_pos h]
    rfl
  · rw [if_neg (mt BitVec.ult_iff_toNat_lt.mp h), if_neg h]
    rfl

theorem xor_eq_ofInt (a b : Word) :
    Alu.xor.apply a b = BitVec.ofInt 32 (xor a.toInt b.toInt) := by
  unfold xor
  rw [unsigned_toInt, unsigned_toInt]
  exact eq_ofInt_of_toNat (BitVec.toNat_xor a b)

theorem srl_eq_ofInt (a b : Word) :
    Alu.srl.apply a b = BitVec.ofInt 32 (srl a.toInt b.toInt) := by
  unfold srl
  rw [unsigned_toInt, amount_toInt]
  apply eq_ofInt_of_toNat
  show (a >>> (b.toNat % 32)).toNat = _
  rw [BitVec.toNat_ushiftRight, Nat.shiftRight_eq_div_pow]

theorem sra_eq_ofInt (a b : Word) :
    Alu.sra.apply a b = BitVec.ofInt 32 (sra a.toInt b.toInt) := by
  have hvalue : (a.sshiftRight (b.toNat % 32)).toInt = sra a.toInt b.toInt := by
    unfold sra
    rw [BitVec.toInt_sshiftRight, Int.shiftRight_eq_div_pow, amount_toInt]
    simp
  rw [← hvalue, BitVec.ofInt_toInt]
  rfl

theorem or_eq_ofInt (a b : Word) :
    Alu.or.apply a b = BitVec.ofInt 32 (or a.toInt b.toInt) := by
  unfold or
  rw [unsigned_toInt, unsigned_toInt]
  exact eq_ofInt_of_toNat (BitVec.toNat_or a b)

theorem and_eq_ofInt (a b : Word) :
    Alu.and.apply a b = BitVec.ofInt 32 (and a.toInt b.toInt) := by
  unfold and
  rw [unsigned_toInt, unsigned_toInt]
  exact eq_ofInt_of_toNat (BitVec.toNat_and a b)

/-! ### Conditions -/

theorem eq_holds_iff (a b : Word) : Condition.eq.holds a b = true ↔ a.toInt = b.toInt := by
  rw [BitVec.toInt_inj]
  exact beq_iff_eq

theorem ne_holds_iff (a b : Word) : Condition.ne.holds a b = true ↔ a.toInt ≠ b.toInt := by
  rw [ne_eq, BitVec.toInt_inj]
  exact bne_iff_ne

theorem lt_holds_iff (a b : Word) : Condition.lt.holds a b = true ↔ a.toInt < b.toInt :=
  BitVec.slt_iff_toInt_lt

theorem ge_holds_iff (a b : Word) : Condition.ge.holds a b = true ↔ a.toInt ≥ b.toInt := by
  show (!a.slt b) = true ↔ _
  rw [Bool.not_eq_true', ← Bool.not_eq_true, BitVec.slt_iff_toInt_lt]
  exact Int.not_lt

theorem ltu_holds_iff (a b : Word) :
    Condition.ltu.holds a b = true ↔ unsigned a.toInt < unsigned b.toInt := by
  rw [unsigned_toInt, unsigned_toInt]
  exact BitVec.ult_iff_toNat_lt

theorem geu_holds_iff (a b : Word) :
    Condition.geu.holds a b = true ↔ unsigned a.toInt ≥ unsigned b.toInt := by
  show (!a.ult b) = true ↔ _
  rw [unsigned_toInt, unsigned_toInt, Bool.not_eq_true', ← Bool.not_eq_true,
    BitVec.ult_iff_toNat_lt]
  exact Nat.not_lt

/-! ### Addresses -/

/-- An address moved by a distance. -/
theorem address_add (pc d : Word) : pc + d = BitVec.ofInt 32 (pc.toNat + d.toInt) := by
  rw [BitVec.ofInt_add, ← eq_ofInt_of_toNat rfl, BitVec.ofInt_toInt]

/-- It is the one of this number. -/
theorem toNat_address_add (pc d : Word) : (pc + d).toNat = unsigned (pc.toNat + d.toInt) := by
  rw [address_add, BitVec.toNat_ofInt]
  rfl

/-- Clearing bit 0 rounds down to an even number. -/
theorem clearBit0_ofInt (i : Int) :
    BitVec.ofInt 32 i &&& ~~~1#32 = BitVec.ofInt 32 (2 * (i / 2)) := by
  apply BitVec.eq_of_toNat_eq
  have hclear := Word.toNat_clear (BitVec.ofInt 32 i) 1
  rw [show BitVec.ofNat 32 (2 ^ 1 - 1) = 1#32 from rfl, BitVec.toNat_ofInt] at hclear
  rw [hclear, BitVec.toNat_ofInt]
  omega

end Manual

end HomeComputer
