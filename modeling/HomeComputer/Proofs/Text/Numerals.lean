/-
Numbers can be read back from their texts.

A hexadecimal numeral without leading zeros and one of a fixed number of digits spell the same
digits: `lowDigits` takes so many of them off the low end, and a padded numeral is exactly these
(`replicate_append_toDigits`).  Numbers below the matching power of sixteen are told apart by
them, and that carries over to numerals without leading zeros, since a numeral's length is a
bound on its number.

Numerals are made of digits only, so they can stand between marks of other kinds, and the last
section says which characters occur.
-/
import HomeComputer.Text
import Mathlib.Algebra.Ring.Nat

namespace HomeComputer

namespace Text

/-! ### Hexadecimal digits -/

/-- The lowest `k` hexadecimal digits of a number, highest first. -/
def lowDigits : Nat → Nat → List Char
  | 0, _ => []
  | k + 1, n => lowDigits k (n / 16) ++ [Nat.digitChar (n % 16)]

theorem length_lowDigits (k n : Nat) : (lowDigits k n).length = k := by
  induction k generalizing n with
  | zero => rfl
  | succ k ih => rw [lowDigits, List.length_append, ih, List.length_singleton]

theorem lowDigits_zero (k : Nat) : lowDigits k 0 = List.replicate k '0' := by
  induction k with
  | zero => rfl
  | succ k ih =>
      rw [lowDigits, List.replicate_succ', Nat.zero_div, ih]
      rfl

theorem digitChar_inj : ∀ a < 16, ∀ b < 16, Nat.digitChar a = Nat.digitChar b → a = b := by
  decide

theorem lowDigits_inj {k n m : Nat} (hn : n < 16 ^ k) (hm : m < 16 ^ k)
    (h : lowDigits k n = lowDigits k m) : n = m := by
  induction k generalizing n m with
  | zero =>
      rw [Nat.pow_zero] at hn hm
      omega
  | succ k ih =>
      obtain ⟨hhigh, hlow⟩ := List.append_inj h (by rw [length_lowDigits, length_lowDigits])
      rw [Nat.pow_succ] at hn hm
      have hdiv : n / 16 = m / 16 := ih (by omega) (by omega) hhigh
      have hmod : n % 16 = m % 16 :=
        digitChar_inj _ (Nat.mod_lt n (by decide)) _ (Nat.mod_lt m (by decide))
          (List.singleton_inj.mp hlow)
      omega

/-- A numeral padded to `k` digits has exactly the lowest `k` digits of its number. -/
theorem replicate_append_toDigits {k n : Nat} (hk : 0 < k) (hn : n < 16 ^ k) :
    List.replicate (k - (Nat.toDigits 16 n).length) '0' ++ Nat.toDigits 16 n = lowDigits k n := by
  induction k generalizing n with
  | zero => exact absurd hk (Nat.lt_irrefl 0)
  | succ k ih =>
      by_cases hsmall : n < 16
      · -- One digit, and zeros in front of it.
        rw [Nat.toDigits_of_lt_base hsmall, lowDigits, Nat.div_eq_of_lt hsmall, lowDigits_zero,
          Nat.mod_eq_of_lt hsmall, List.length_singleton, Nat.add_sub_cancel]
      · have hdiv : n / 16 < 16 ^ k := by
          rw [Nat.pow_succ] at hn
          omega
        have hk' : 0 < k := by
          rcases Nat.eq_zero_or_pos k with rfl | hpos
          · exact absurd hn (by simpa using hsmall)
          · exact hpos
        rw [Nat.toDigits_of_base_le (by decide) (Nat.le_of_not_lt hsmall), lowDigits,
          ← ih hk' hdiv, List.length_append, List.length_singleton, Nat.add_sub_add_right,
          List.append_assoc]

theorem lt_pow_length_toDigits (n : Nat) : n < 16 ^ (Nat.toDigits 16 n).length :=
  (Nat.length_toDigits_le_iff (by decide) Nat.length_toDigits_pos).mp (Nat.le_refl _)

/-- A numeral without leading zeros has as many of the lowest digits as it is long. -/
theorem toDigits_eq_lowDigits (n : Nat) :
    Nat.toDigits 16 n = lowDigits (Nat.toDigits 16 n).length n := by
  rw [← replicate_append_toDigits Nat.length_toDigits_pos (lt_pow_length_toDigits n), Nat.sub_self]
  rfl

theorem toDigits_inj {n m : Nat} (h : Nat.toDigits 16 n = Nat.toDigits 16 m) : n = m := by
  have hm := lt_pow_length_toDigits m
  rw [← h] at hm
  refine lowDigits_inj (lt_pow_length_toDigits n) hm ?_
  rw [← toDigits_eq_lowDigits, h, ← toDigits_eq_lowDigits]

theorem address_inj {n m : Nat} (h : address n = address m) : n = m :=
  toDigits_inj (String.ofList_inj.mp ((String.append_right_inj "0x").mp h))

theorem toNat_lt_sixteen_pow (w : Word) : w.toNat < 16 ^ 8 := w.isLt

/-- The numeral of a word in a report has the eight digits of the word. -/
theorem fullWord_eq (w : Word) :
    fullWord w.toNat = "0x" ++ String.ofList (lowDigits 8 w.toNat) := by
  rw [← replicate_append_toDigits (by decide) (toNat_lt_sixteen_pow w)]
  rfl

theorem fullWord_inj {w w' : Word} (h : fullWord w.toNat = fullWord w'.toNat) : w = w' := by
  rw [fullWord_eq, fullWord_eq] at h
  have hdigits := String.ofList_inj.mp ((String.append_right_inj "0x").mp h)
  exact BitVec.eq_of_toNat_eq
    (lowDigits_inj (toNat_lt_sixteen_pow w) (toNat_lt_sixteen_pow w') hdigits)

/-! ### Decimal numbers -/

theorem repr_inj {n m : Nat} (h : n.repr = m.repr) : n = m := by
  have hdigits : Nat.toDigits 10 n = Nat.toDigits 10 m := String.ofList_inj.mp h
  rw [← Nat.ofDigitChars_ten_toDigits (n := n), hdigits, Nat.ofDigitChars_ten_toDigits]

theorem not_mem_toString_nat {n : Nat} {c : Char} (hc : c.isDigit = false) :
    c ∉ (toString n).toList := by
  intro h
  rw [Nat.toString_eq_repr, Nat.toList_repr] at h
  rw [Nat.isDigit_of_mem_toDigits (by decide) (by decide) h] at hc
  cases hc

/-- A text that starts with a minus is not that of a natural number. -/
theorem repr_ne_minus_append (n : Nat) (s : String) : n.repr ≠ "-" ++ s := by
  intro h
  have hminus : '-' ∉ n.repr.toList := not_mem_toString_nat (by decide)
  apply hminus
  rw [h, String.toList_append]
  exact List.mem_append_left _ (by decide)

theorem toString_int_inj {i j : Int} (h : toString i = toString j) : i = j := by
  rw [Int.toString_eq_repr, Int.toString_eq_repr, Int.repr_eq_if, Int.repr_eq_if] at h
  by_cases hi : 0 ≤ i <;> by_cases hj : 0 ≤ j
  · rw [if_pos hi, if_pos hj] at h
    have := repr_inj h
    omega
  · rw [if_pos hi, if_neg hj] at h
    exact absurd h (repr_ne_minus_append _ _)
  · rw [if_neg hi, if_pos hj] at h
    exact absurd h.symm (repr_ne_minus_append _ _)
  · rw [if_neg hi, if_neg hj] at h
    have := repr_inj ((String.append_right_inj "-").mp h)
    omega

/-! ### The characters of a numeral -/

theorem mem_lowDigits {k n : Nat} {c : Char} (h : c ∈ lowDigits k n) :
    ∃ d < 16, c = Nat.digitChar d := by
  induction k generalizing n with
  | zero => cases h
  | succ k ih =>
      rw [lowDigits, List.mem_append, List.mem_singleton] at h
      rcases h with h | rfl
      · exact ih h
      · exact ⟨n % 16, Nat.mod_lt n (by decide), rfl⟩

theorem mem_address {n : Nat} {c : Char} (h : c ∈ (address n).toList) :
    c = 'x' ∨ ∃ d < 16, c = Nat.digitChar d := by
  have hparts : c ∈ "0x".toList ∨ c ∈ Nat.toDigits 16 n := by
    unfold address hexDigits at h
    rw [String.toList_append, List.mem_append] at h
    exact h.imp_right (by rw [String.toList_ofList]; exact id)
  rcases hparts with hmark | hdigit
  · have hcases : c = '0' ∨ c = 'x' := by simpa using hmark
    rcases hcases with rfl | rfl
    · exact Or.inr ⟨0, by decide, rfl⟩
    · exact Or.inl rfl
  · rw [toDigits_eq_lowDigits] at hdigit
    exact Or.inr (mem_lowDigits hdigit)

theorem not_mem_toString_int {i : Int} {c : Char} (hminus : c ≠ '-') (hc : c.isDigit = false) :
    c ∉ (toString i).toList := by
  intro h
  rw [Int.toString_eq_repr, Int.repr_eq_if] at h
  split at h
  · exact not_mem_toString_nat hc h
  · rw [String.toList_append, List.mem_append] at h
    rcases h with h | h
    · exact hminus (by simpa using h)
    · exact not_mem_toString_nat hc h

end Text

end HomeComputer
