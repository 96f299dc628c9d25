/-
Multiplication and division are those of the integers.

A product of two words fits into two words, so cutting it in half loses nothing: the upper half
at its weight and the lower half add up to it again (`toInt_halves`, `toNat_halves`).  The lower
half is the same however the operands are read, and is the product that fits a single word.  What
is left to see is that the product of double width is the exact one, which is a bound on the
operands.

Division is the truncated one of the integers, with one pair of operands whose quotient is no
word.  `Products` and `Quotients` list what the operations obey, for any two operands.
-/
import HomeComputer.Isa.Multiply
import HomeComputer.Proofs.Isa.Integers

namespace HomeComputer

namespace MulDiv

/-! ### Halves -/

/-- The two halves make up the whole. -/
theorem upperHalf_append (p : BitVec 64) : upperHalf p ++ p.setWidth 32 = p := by
  have hlow : p.setWidth 32 = p.extractLsb' 0 32 := BitVec.setWidth_eq_extractLsb' (by decide)
  rw [hlow]
  show p.extractLsb' 32 32 ++ p.extractLsb' 0 32 = p
  rw [BitVec.extractLsb'_append_extractLsb'_eq_extractLsb' (by decide)]
  exact BitVec.extractLsb'_eq_self

theorem toInt_halves (p : BitVec 64) :
    (upperHalf p).toInt * 2 ^ 32 + (p.setWidth 32).toNat = p.toInt := by
  have hwhole : (upperHalf p ++ p.setWidth 32).toInt = _ := BitVec.toInt_append
  rw [if_neg (by decide), upperHalf_append] at hwhole
  rw [hwhole, Int.mul_comm]

theorem toNat_halves (p : BitVec 64) :
    (upperHalf p).toNat * 2 ^ 32 + (p.setWidth 32).toNat = p.toNat := by
  have hwhole := Word.toNat_append (upperHalf p) (p.setWidth 32)
  rw [upperHalf_append] at hwhole
  exact hwhole.symm

section

variable {x y : BitVec 64} {a b : Word}

/-- The lower half of a product only depends on the lower halves of the operands. -/
theorem lowerHalf_mul (hx : x.setWidth 32 = a) (hy : y.setWidth 32 = b) :
    (x * y).setWidth 32 = mul.apply a b := by
  rw [BitVec.setWidth_mul _ _ (by decide), hx, hy]
  rfl

/-- A product that double width holds, read signed, from its halves. -/
theorem signed_product (hx : x.setWidth 32 = a) (hy : y.setWidth 32 = b)
    (hfits : x.smulOverflow y = false) :
    (upperHalf (x * y)).toInt * 2 ^ 32 + (mul.apply a b).toNat = x.toInt * y.toInt := by
  have hno : ¬x.smulOverflow y = true := by simp [hfits]
  rw [← lowerHalf_mul hx hy, toInt_halves, BitVec.toInt_mul_of_not_smulOverflow hno]

/-- A product that double width holds, read unsigned, from its halves. -/
theorem unsigned_product (hx : x.setWidth 32 = a) (hy : y.setWidth 32 = b)
    (hfits : x.umulOverflow y = false) :
    (upperHalf (x * y)).toNat * 2 ^ 32 + (mul.apply a b).toNat = x.toNat * y.toNat := by
  have hno : ¬x.umulOverflow y = true := by simp [hfits]
  rw [← lowerHalf_mul hx hy, toNat_halves, BitVec.toNat_mul_of_not_umulOverflow hno]

end

/-! ### Operands of double width -/

theorem lowerHalf_signExtend (a : Word) : (a.signExtend 64).setWidth 32 = a := by
  apply BitVec.eq_of_getLsbD_eq
  intro i hi
  have hwide : i < 64 := by omega
  simp only [BitVec.getLsbD_setWidth, BitVec.getLsbD_signExtend, hi, hwide, decide_true,
    Bool.true_and, if_true]

theorem lowerHalf_setWidth (a : Word) : (a.setWidth 64).setWidth 32 = a := by
  rw [BitVec.setWidth_setWidth_of_le _ (by decide), BitVec.setWidth_eq]

theorem toInt_signExtend (a : Word) : (a.signExtend 64).toInt = a.toInt :=
  BitVec.toInt_signExtend_of_le (by decide)

theorem toNat_setWidth (a : Word) : (a.setWidth 64).toNat = a.toNat :=
  BitVec.toNat_setWidth_of_le (by decide)

theorem toInt_setWidth (a : Word) : (a.setWidth 64).toInt = a.toNat := by
  have ha := a.isLt
  rw [BitVec.toInt_eq_toNat_of_lt, toNat_setWidth]
  rw [toNat_setWidth]
  omega

theorem natAbs_toInt_le (a : Word) : a.toInt.natAbs ≤ 2 ^ 31 := by
  have hlow := BitVec.le_toInt a
  have hhigh : a.toInt < 2 ^ (32 - 1) := BitVec.toInt_lt
  omega

/-- Double width holds a product with one factor of a signed word and the other of a word of
either kind. -/
theorem smulOverflow_eq_false {x y : BitVec 64} (hx : x.toInt.natAbs ≤ 2 ^ 31)
    (hy : y.toInt.natAbs ≤ 2 ^ 32 - 1) : x.smulOverflow y = false := by
  have hproduct : (x.toInt * y.toInt).natAbs ≤ 2 ^ 31 * (2 ^ 32 - 1) := by
    rw [Int.natAbs_mul]
    exact Nat.mul_le_mul hx hy
  unfold BitVec.smulOverflow
  rw [Bool.or_eq_false_iff, decide_eq_false_iff_not, decide_eq_false_iff_not]
  omega

/-- Double width holds a product of two unsigned words. -/
theorem umulOverflow_eq_false (a b : Word) :
    (a.setWidth 64).umulOverflow (b.setWidth 64) = false := by
  have hproduct : a.toNat * b.toNat ≤ (2 ^ 32 - 1) * (2 ^ 32 - 1) :=
    Nat.mul_le_mul (Nat.le_pred_of_lt a.isLt) (Nat.le_pred_of_lt b.isLt)
  unfold BitVec.umulOverflow
  rw [decide_eq_false_iff_not, toNat_setWidth, toNat_setWidth]
  omega

/-! ### Products -/

/-- The products of `a` and `b` are exact, however each of the two is read: the two halves make
up the product of the integers, and no bit is lost before it is cut in half. -/
structure Products (a b : Word) : Prop where
  signed : (mulh.apply a b).toInt * 2 ^ 32 + (mul.apply a b).toNat = a.toInt * b.toInt
  /-- The first factor is signed and the second is not. -/
  mixed : (mulhsu.apply a b).toInt * 2 ^ 32 + (mul.apply a b).toNat = a.toInt * b.toNat
  unsigned : (mulhu.apply a b).toNat * 2 ^ 32 + (mul.apply a b).toNat = a.toNat * b.toNat
  signed_fits : mulh.apply a b = upperHalf (a.signExtend 64 * b.signExtend 64) ∧
    (a.signExtend 64).smulOverflow (b.signExtend 64) = false
  mixed_fits : mulhsu.apply a b = upperHalf (a.signExtend 64 * b.setWidth 64) ∧
    (a.signExtend 64).smulOverflow (b.setWidth 64) = false
  unsigned_fits : mulhu.apply a b = upperHalf (a.setWidth 64 * b.setWidth 64) ∧
    (a.setWidth 64).umulOverflow (b.setWidth 64) = false

theorem products (a b : Word) : Products a b := by
  have ha : (a.signExtend 64).toInt.natAbs ≤ 2 ^ 31 := by
    rw [toInt_signExtend]
    exact natAbs_toInt_le a
  have hsigned : (a.signExtend 64).smulOverflow (b.signExtend 64) = false := by
    have hb := natAbs_toInt_le b
    refine smulOverflow_eq_false ha ?_
    rw [toInt_signExtend]
    omega
  have hmixed : (a.signExtend 64).smulOverflow (b.setWidth 64) = false := by
    have hb := b.isLt
    refine smulOverflow_eq_false ha ?_
    rw [toInt_setWidth]
    omega
  have hunsigned := umulOverflow_eq_false a b
  refine ⟨?_, ?_, ?_, ⟨rfl, hsigned⟩, ⟨rfl, hmixed⟩, ⟨rfl, hunsigned⟩⟩
  · have h := signed_product (lowerHalf_signExtend a) (lowerHalf_signExtend b) hsigned
    rwa [toInt_signExtend, toInt_signExtend] at h
  · have h := signed_product (lowerHalf_signExtend a) (lowerHalf_setWidth b) hmixed
    rwa [toInt_signExtend, toInt_setWidth] at h
  · have h := unsigned_product (lowerHalf_setWidth a) (lowerHalf_setWidth b) hunsigned
    rwa [toNat_setWidth, toNat_setWidth] at h

/-! ### Quotients and remainders -/

section

variable {a b : Word}

theorem apply_div (hb : b ≠ 0#32) : div.apply a b = a.sdiv b := if_neg hb

theorem apply_divu (hb : b ≠ 0#32) : divu.apply a b = a / b := if_neg hb

theorem apply_rem (hb : b ≠ 0#32) : rem.apply a b = a.srem b := if_neg hb

theorem apply_remu (hb : b ≠ 0#32) : remu.apply a b = a % b := if_neg hb

theorem toInt_ne_zero (hb : b ≠ 0#32) : b.toInt ≠ 0 := by
  intro hzero
  exact hb (BitVec.eq_of_toInt_eq (hzero.trans BitVec.toInt_zero.symm))

/-- The remainder is the one of the integers for any divisor but zero. -/
theorem toInt_rem (hb : b ≠ 0#32) : (rem.apply a b).toInt = a.toInt.tmod b.toInt := by
  rw [apply_rem hb, BitVec.toInt_srem]

/-- The quotient is the one of the integers, if that is a word. -/
theorem toInt_div (hb : b ≠ 0#32) (hfits : ¬(a.toInt = -2 ^ 31 ∧ b.toInt = -1)) :
    (div.apply a b).toInt = a.toInt.tdiv b.toInt := by
  rw [apply_div hb]
  apply BitVec.toInt_sdiv_of_ne_or_ne
  by_contra hpair
  rw [not_or, not_not, not_not] at hpair
  obtain ⟨rfl, rfl⟩ := hpair
  exact hfits ⟨by decide, by decide⟩

end

/-- What the quotients and remainders of `a` by `b` obey. -/
structure Quotients (a b : Word) : Prop where
  unsigned : b ≠ 0#32 →
    a.toNat = b.toNat * (divu.apply a b).toNat + (remu.apply a b).toNat ∧
    (remu.apply a b).toNat < b.toNat
  signed : b ≠ 0#32 → ¬(a.toInt = -2 ^ 31 ∧ b.toInt = -1) →
    a.toInt = b.toInt * (div.apply a b).toInt + (rem.apply a b).toInt
  /-- The remainder is smaller than the divisor and has the sign of the dividend. -/
  remainder : b ≠ 0#32 →
    (rem.apply a b).toInt.natAbs < b.toInt.natAbs ∧
    ((rem.apply a b).toInt = 0 ∨ (rem.apply a b).toInt.sign = a.toInt.sign)
  /-- The quotient that is no word wraps round, and the equation with it. -/
  wrapped : a.toInt = -2 ^ 31 → b.toInt = -1 →
    (div.apply a b).toInt = -2 ^ 31 ∧ (rem.apply a b).toInt = 0 ∧
    (b.toInt * (div.apply a b).toInt + (rem.apply a b).toInt) % 2 ^ 32 = a.toInt % 2 ^ 32
  by_zero : b = 0#32 →
    div.apply a b = BitVec.allOnes 32 ∧ divu.apply a b = BitVec.allOnes 32 ∧
    rem.apply a b = a ∧ remu.apply a b = a

theorem quotients (a b : Word) : Quotients a b where
  unsigned hb := by
    have hpos : 0 < b.toNat := by
      rw [Nat.pos_iff_ne_zero]
      intro hzero
      exact hb (BitVec.eq_of_toNat_eq hzero)
    rw [apply_divu hb, apply_remu hb, BitVec.toNat_udiv, BitVec.toNat_umod]
    exact ⟨(Nat.div_add_mod _ _).symm, Nat.mod_lt _ hpos⟩
  signed hb hfits := by
    rw [toInt_div hb hfits, toInt_rem hb]
    exact (Int.mul_tdiv_add_tmod _ _).symm
  remainder hb := by
    have hpos : 0 < b.toInt.natAbs := Int.natAbs_pos.mpr (toInt_ne_zero hb)
    rw [toInt_rem hb, Int.natAbs_tmod]
    refine ⟨Nat.mod_lt _ hpos, ?_⟩
    by_cases hdvd : b.toInt ∣ a.toInt
    · exact .inl (Int.tmod_eq_zero_of_dvd hdvd)
    · rw [Int.sign_tmod, if_neg hdvd]
      exact .inr rfl
  wrapped ha hb := by
    obtain rfl : a = BitVec.intMin 32 := BitVec.eq_of_toInt_eq (ha.trans (by decide))
    obtain rfl : b = -1#32 := BitVec.eq_of_toInt_eq (hb.trans (by decide))
    have hzero : -1#32 ≠ 0#32 := by decide
    rw [toInt_rem hzero, apply_div hzero, BitVec.intMin_sdiv_neg_one]
    decide
  by_zero hb := by
    subst hb
    exact ⟨rfl, rfl, rfl, rfl⟩

end MulDiv

end HomeComputer
