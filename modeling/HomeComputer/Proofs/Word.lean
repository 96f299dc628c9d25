/-
Words as numbers and words as bytes.

What cutting bits out of a word, putting pieces side by side, and clearing bits at the low end do
to the number that a word is; what shifting and masking do to its bytes; and where the bytes after
an address are, which is in the same word up to its end and in the next one after it.  Addresses
wrap round, and so does the next word.
-/
import HomeComputer.Word
import Mathlib.Algebra.BigOperators.Intervals
import Mathlib.Data.Nat.Bitwise

namespace HomeComputer

namespace Word

theorem toNat_bits (w : Word) (start len : Nat) :
    (w.bits start len).toNat = w.toNat / 2 ^ start % 2 ^ len := by
  simp [bits, Nat.shiftRight_eq_div_pow]

/-- Two pieces side by side are each at its weight. -/
theorem toNat_append {m n : Nat} (x : BitVec m) (y : BitVec n) :
    (x ++ y).toNat = x.toNat * 2 ^ n + y.toNat := by
  rw [BitVec.toNat_append, ← Nat.shiftLeft_add_eq_or_of_lt y.isLt, Nat.shiftLeft_eq]

theorem toNat_append_zero {m : Nat} (x : BitVec m) (n : Nat) :
    (x ++ 0#n).toNat = x.toNat * 2 ^ n := by
  rw [toNat_append, BitVec.toNat_ofNat, Nat.zero_mod, Nat.add_zero]

/-- Clearing the low `k` bits rounds down to a multiple of `2 ^ k`. -/
theorem toNat_clear (a : Word) (k : Nat) :
    (a &&& ~~~BitVec.ofNat 32 (2 ^ k - 1)).toNat = a.toNat / 2 ^ k * 2 ^ k := by
  apply Nat.eq_of_testBit_eq
  intro i
  rw [Nat.testBit_mul_two_pow, Nat.testBit_div_two_pow]
  by_cases hi : i < 32
  · have hmask : (BitVec.ofNat 32 (2 ^ k - 1)).getLsbD i = decide (i < k) := by
      rw [BitVec.getLsbD_ofNat, Nat.testBit_two_pow_sub_one]
      simp [hi]
    rw [BitVec.testBit_toNat, BitVec.getLsbD_and, BitVec.getLsbD_not, hmask]
    by_cases hik : i < k
    · simp [hik]
    · have hki : k ≤ i := Nat.le_of_not_lt hik
      simp [hik, hki, hi, BitVec.getLsbD]
  · have hhigh : a.toNat.testBit i = false :=
      Nat.testBit_lt_two_pow
        (Nat.lt_of_lt_of_le a.isLt (Nat.pow_le_pow_right (by decide) (by omega)))
    have hzero : (a &&& ~~~BitVec.ofNat 32 (2 ^ k - 1)).toNat.testBit i = false :=
      Nat.testBit_lt_two_pow
        (Nat.lt_of_lt_of_le (BitVec.isLt _) (Nat.pow_le_pow_right (by decide) (by omega)))
    rw [hzero]
    by_cases hik : k ≤ i
    · simp [hik, hhigh]
    · simp [hik]

/-- Keeping the low `k` bits is the remainder by `2 ^ k`. -/
theorem toNat_keep (a : Word) {k : Nat} (hk : k ≤ 32) :
    (a &&& BitVec.ofNat 32 (2 ^ k - 1)).toNat = a.toNat % 2 ^ k := by
  have hpow : 2 ^ k ≤ 2 ^ 32 := Nat.pow_le_pow_right (by decide) hk
  have hpos : 0 < 2 ^ k := Nat.two_pow_pos k
  rw [BitVec.toNat_and, BitVec.toNat_ofNat, Nat.mod_eq_of_lt (by omega),
    Nat.and_two_pow_sub_one_eq_mod]

/-! ### Bytes -/

theorem getLsbD_byte (w : Word) (i j : Nat) :
    (w.byte i).getLsbD j = (decide (j < 8) && w.getLsbD (8 * i + j)) := by
  unfold byte
  rw [BitVec.getLsbD_extractLsb']

theorem toNat_byte (w : Word) (i : Nat) : (w.byte i).toNat = w.toNat / 256 ^ i % 256 := by
  unfold byte
  rw [BitVec.extractLsb'_toNat, Nat.shiftRight_eq_div_pow, Nat.pow_mul]

/-- The low bytes of a word, each at its weight, are its remainder. -/
theorem sum_bytes (w : Word) (n : Nat) :
    ∑ i ∈ Finset.range n, (w.byte i).toNat * 256 ^ i = w.toNat % 256 ^ n := by
  induction n with
  | zero => simp [Nat.mod_one]
  | succ n ih => rw [Finset.sum_range_succ, ih, toNat_byte, Nat.mod_pow_succ, Nat.mul_comm]

theorem byte_or (a b : Word) (i : Nat) : byte (a ||| b) i = byte a i ||| byte b i := by
  apply BitVec.eq_of_getLsbD_eq
  intro j hj
  rw [BitVec.getLsbD_or, getLsbD_byte, getLsbD_byte, getLsbD_byte, BitVec.getLsbD_or]
  simp [hj]

theorem byte_ushiftRight (w : Word) (k i : Nat) : byte (w >>> (8 * k)) i = byte w (k + i) := by
  apply BitVec.eq_of_getLsbD_eq
  intro j hj
  rw [getLsbD_byte, getLsbD_byte, BitVec.getLsbD_ushiftRight,
    show 8 * k + (8 * i + j) = 8 * (k + i) + j by omega]

theorem byte_shiftLeft_of_lt (w : Word) {k i : Nat} (hik : i < k) :
    byte (w <<< (8 * k)) i = 0#8 := by
  apply BitVec.eq_of_getLsbD_eq
  intro j hj
  have hbelow : 8 * i + j < 8 * k := by omega
  simp [getLsbD_byte, hbelow]

theorem byte_shiftLeft_of_le (w : Word) {k i : Nat} (hki : k ≤ i) (hi : i < 4) :
    byte (w <<< (8 * k)) i = byte w (i - k) := by
  apply BitVec.eq_of_getLsbD_eq
  intro j hj
  have habove : ¬8 * i + j < 8 * k := by omega
  have hin : 8 * i + j < 32 := by omega
  rw [getLsbD_byte, getLsbD_byte, BitVec.getLsbD_shiftLeft,
    show 8 * i + j - 8 * k = 8 * (i - k) + j by omega]
  simp [habove, hin]

theorem byte_of_le (w : Word) {i : Nat} (hi : 4 ≤ i) : w.byte i = 0#8 := by
  apply BitVec.eq_of_getLsbD_eq
  intro j hj
  rw [getLsbD_byte, BitVec.getLsbD_of_ge w _ (by omega)]
  simp

/-- The low `n` bytes of a word survive masking by them. -/
theorem byte_keep (w : Word) {n i : Nat} (hi : i < n) (hn : n ≤ 4) :
    byte (w &&& BitVec.ofNat 32 (2 ^ (8 * n) - 1)) i = byte w i := by
  apply BitVec.eq_of_getLsbD_eq
  intro j hj
  have hkept : 8 * i + j < 8 * n := by omega
  have hin : 8 * i + j < 32 := by omega
  rw [getLsbD_byte, getLsbD_byte, BitVec.getLsbD_and, BitVec.getLsbD_ofNat,
    Nat.testBit_two_pow_sub_one]
  simp [hkept, hin]

/-! ### Addresses -/

theorem toNat_aligned (a : Word) : a.aligned.toNat = a.toNat / 4 * 4 :=
  toNat_clear a 2

theorem lane_lt (a : Word) : a.lane < 4 := Nat.mod_lt _ (by decide)

theorem toNat_ofNat_of_lt {n : Nat} (hn : n < 2 ^ 32) : (BitVec.ofNat 32 n).toNat = n := by
  rw [BitVec.toNat_ofNat, Nat.mod_eq_of_lt hn]

theorem aligned_aligned (a : Word) : a.aligned.aligned = a.aligned := by
  apply BitVec.eq_of_toNat_eq
  rw [toNat_aligned, toNat_aligned]
  omega

/-- The address of the word after the one that holds `a`. -/
theorem toNat_next (a : Word) : (a.aligned + 4#32).toNat = (a.toNat / 4 * 4 + 4) % 2 ^ 32 := by
  rw [BitVec.toNat_add, toNat_aligned]
  rfl

theorem aligned_next (a : Word) : (a.aligned + 4#32).aligned = a.aligned + 4#32 := by
  apply BitVec.eq_of_toNat_eq
  rw [toNat_aligned, toNat_next]
  omega

theorem next_ne_aligned (a : Word) : a.aligned + 4#32 ≠ a.aligned := by
  intro h
  have hnat := congrArg BitVec.toNat h
  rw [toNat_next, toNat_aligned] at hnat
  have ha := a.isLt
  omega

/-- The address of byte `i` of a range that starts at the address number `a`. -/
def addressFrom (a i : Nat) : Word := BitVec.ofNat 32 (a + i)

theorem addressFrom_zero (c : Word) : addressFrom c.toNat 0 = c := by
  unfold addressFrom
  rw [Nat.add_zero, BitVec.ofNat_toNat, BitVec.setWidth_eq]

theorem addressFrom_succ (n i : Nat) : addressFrom n (i + 1) = addressFrom (n + 1) i := by
  unfold addressFrom
  rw [Nat.add_right_comm, Nat.add_assoc]

/-- A byte of a range is in the first word as long as there are bytes left in it. -/
theorem addressFrom_of_lt (a : Word) {d : Nat} (hd : a.lane + d < 4) :
    (addressFrom a.toNat d).aligned = a.aligned ∧ (addressFrom a.toNat d).lane = a.lane + d := by
  have ha := a.isLt
  unfold addressFrom
  unfold lane at hd ⊢
  refine ⟨?_, ?_⟩
  · apply BitVec.eq_of_toNat_eq
    rw [toNat_aligned, toNat_aligned, BitVec.toNat_ofNat]
    omega
  · rw [BitVec.toNat_ofNat]
    omega

/-- And in the next word after that. -/
theorem addressFrom_of_le (a : Word) {d : Nat} (hd : 4 ≤ a.lane + d) (hd' : a.lane + d < 8) :
    (addressFrom a.toNat d).aligned = a.aligned + 4#32 ∧
      (addressFrom a.toNat d).lane = a.lane + d - 4 := by
  have ha := a.isLt
  unfold addressFrom
  unfold lane at hd hd' ⊢
  refine ⟨?_, ?_⟩
  · apply BitVec.eq_of_toNat_eq
    rw [toNat_aligned, toNat_next, BitVec.toNat_ofNat]
    omega
  · rw [BitVec.toNat_ofNat]
    omega

/-- A byte of the first word, from the start of the range on, is in the range. -/
theorem eq_addressFrom_of_aligned {a c : Word} (hword : c.aligned = a.aligned)
    (hlane : a.lane ≤ c.lane) : c = addressFrom a.toNat (c.lane - a.lane) := by
  have hnat := congrArg BitVec.toNat hword
  have hc := c.isLt
  apply BitVec.eq_of_toNat_eq
  unfold addressFrom lane at *
  rw [toNat_aligned, toNat_aligned] at hnat
  rw [BitVec.toNat_ofNat]
  omega

/-- And so is a byte of the next word. -/
theorem eq_addressFrom_of_next {a c : Word} (hword : c.aligned = a.aligned + 4#32) :
    c = addressFrom a.toNat (4 - a.lane + c.lane) := by
  have hnat := congrArg BitVec.toNat hword
  have hc := c.isLt
  have ha := a.isLt
  apply BitVec.eq_of_toNat_eq
  unfold addressFrom lane at *
  rw [toNat_aligned, toNat_next] at hnat
  rw [BitVec.toNat_ofNat]
  omega

/-! ### Ranges -/

theorem after?_eq_some_iff {a c : Word} {i : Nat} :
    a.after? i = some c ↔ a.toNat + i % 2 ^ 32 < 2 ^ 32 ∧ c = addressFrom a.toNat i := by
  have hsum : a + BitVec.ofNat 32 i = addressFrom a.toNat i := by
    apply BitVec.eq_of_toNat_eq
    unfold addressFrom
    simp only [BitVec.toNat_add, BitVec.toNat_ofNat, Nat.add_mod_mod]
  have hover : BitVec.uaddOverflow a (BitVec.ofNat 32 i) = true ↔
      ¬a.toNat + i % 2 ^ 32 < 2 ^ 32 := by
    unfold BitVec.uaddOverflow
    rw [BitVec.toNat_ofNat, decide_eq_true_eq, Nat.not_lt]
  unfold after?
  rw [hsum]
  by_cases hlt : a.toNat + i % 2 ^ 32 < 2 ^ 32
  · rw [if_neg fun h => hover.mp h hlt, Option.some.injEq, eq_comm]
    exact (and_iff_right hlt).symm
  · rw [if_pos (hover.mpr hlt)]
    exact ⟨nofun, fun h => absurd h.1 hlt⟩

theorem eq_addressFrom_of_after? {a c : Word} {i : Nat} (h : a.after? i = some c) :
    c = addressFrom a.toNat i :=
  (after?_eq_some_iff.mp h).2

theorem after?_of_lt {a : Word} {i : Nat} (h : a.toNat + i < 2 ^ 32) :
    a.after? i = some (addressFrom a.toNat i) := by
  refine after?_eq_some_iff.mpr ⟨?_, rfl⟩
  rwa [Nat.mod_eq_of_lt (by omega)]

theorem after?_zero (a : Word) : a.after? 0 = some a := by
  rw [after?_of_lt a.isLt, addressFrom_zero]

end Word

end HomeComputer
