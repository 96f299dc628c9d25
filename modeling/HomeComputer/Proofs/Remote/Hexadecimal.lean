/-
What numbers and data in a message spell.

A numeral is one digit or more, read in base 16 with the highest digit first; data is two digits
for each byte.  Both may be written in either case, and a numeral with as many zeros in front as
its writer likes, so neither has one spelling only, and `Numeral` and `Pairs` say which texts spell
what.

A number is read digit by digit and given up as soon as it does not fit a word.  That never gives
up too early, because the digits still to come cannot make a number smaller: `numberFrom?` is
described for any number to start from, and the bound on the result is one on all that came
before it.
-/
import HomeComputer.Proofs.Remote.Framing
import Mathlib.Data.List.Forall2
import Mathlib.Data.Nat.Digits.Defs

namespace HomeComputer

namespace Hex

/-- One digit or more, highest first, for the number that they are in base 16. -/
def Numeral (text : List Byte) (n : Nat) : Prop :=
  text ≠ [] ∧ ∃ digits, List.Forall₂ Spells text digits ∧ Nat.ofDigits 16 digits.reverse = n

/-- Two digits for each byte. -/
inductive Pairs : List Byte → List Byte → Prop
  | nil : Pairs [] []
  | cons {high low b : Byte} {h l : Nat} {text data : List Byte} (hhigh : Spells high h)
      (hlow : Spells low l) (hvalue : 16 * h + l = b.toNat) (hrest : Pairs text data) :
      Pairs (high :: low :: text) (b :: data)

/-! ### Numbers -/

/-- The first digit of a numeral has the greatest weight. -/
theorem ofDigits_reverse_cons (d : Nat) (digits : List Nat) :
    Nat.ofDigits 16 (d :: digits).reverse =
      Nat.ofDigits 16 digits.reverse + 16 ^ digits.length * d := by
  rw [List.reverse_cons, Nat.ofDigits_append, List.length_reverse, Nat.ofDigits_singleton]

theorem numberFrom?_cons (value : Nat) (c : Byte) (text : List Byte) :
    numberFrom? value (c :: text) =
      (digit? c).bind fun d =>
        if value * 16 + d < 2 ^ 32 then numberFrom? (value * 16 + d) text else none := rfl

theorem numberFrom?_eq_some_iff {value : Nat} (hvalue : value < 2 ^ 32) {text : List Byte}
    {n : Nat} :
    numberFrom? value text = some n ↔
      ∃ digits, List.Forall₂ Spells text digits ∧
        n = Nat.ofDigits 16 digits.reverse + 16 ^ digits.length * value ∧ n < 2 ^ 32 := by
  induction text generalizing value with
  | nil =>
      have hnil : Nat.ofDigits 16 ([] : List Nat).reverse + 16 ^ ([] : List Nat).length * value =
          value := by simp
      constructor
      · intro h
        obtain rfl := Option.some.inj h
        exact ⟨[], .nil, hnil.symm, hvalue⟩
      · rintro ⟨digits, hdigits, hn, -⟩
        cases hdigits
        rw [hn, hnil]
        rfl
  | cons c text ih =>
      constructor
      · intro h
        rw [numberFrom?_cons, Option.bind_eq_some_iff] at h
        obtain ⟨d, hd, h⟩ := h
        split at h
        · next hfits =>
            obtain ⟨digits, hdigits, hn, hlt⟩ := (ih hfits).mp h
            refine ⟨d :: digits, .cons (digit?_eq_some_iff.mp hd) hdigits, ?_, hlt⟩
            rw [hn, ofDigits_reverse_cons, List.length_cons, Nat.pow_succ]
            ring
        · cases h
      · rintro ⟨digits, hdigits, hn, hlt⟩
        cases hdigits with
        | @cons _ d _ digits hd hdigits =>
            have hsum : n = Nat.ofDigits 16 digits.reverse +
                16 ^ digits.length * (value * 16 + d) := by
              rw [hn, ofDigits_reverse_cons, List.length_cons, Nat.pow_succ]
              ring
            -- What has been read so far is no more than the whole number.
            have hfits : value * 16 + d < 2 ^ 32 := by
              have hpos : 1 ≤ 16 ^ digits.length := Nat.one_le_pow _ _ (by decide)
              have hle := Nat.le_mul_of_pos_left (value * 16 + d) hpos
              omega
            rw [numberFrom?_cons, digit?_eq_some_iff.mpr hd, Option.bind_some, if_pos hfits]
            exact (ih hfits).mpr ⟨digits, hdigits, hsum, hlt⟩

/-- A text is read as a number exactly if it is a numeral for it. -/
theorem number?_eq_some_iff {text : List Byte} {n : Word} :
    number? text = some n ↔ Numeral text n.toNat := by
  have hn := n.isLt
  cases text with
  | nil => exact ⟨nofun, fun h => absurd rfl h.1⟩
  | cons c text =>
      have hzero : 0 < 2 ^ 32 := by decide
      simp only [number?, Option.map_eq_some_iff, numberFrom?_eq_some_iff hzero]
      constructor
      · rintro ⟨m, ⟨digits, hdigits, hm, hlt⟩, rfl⟩
        refine ⟨List.cons_ne_nil c text, digits, hdigits, ?_⟩
        rw [BitVec.toNat_ofNat, Nat.mod_eq_of_lt hlt, hm, Nat.mul_zero, Nat.add_zero]
      · rintro ⟨-, digits, hdigits, hm⟩
        refine ⟨n.toNat, ⟨digits, hdigits, ?_, hn⟩, ?_⟩
        · rw [Nat.mul_zero, Nat.add_zero, hm]
        · rw [BitVec.ofNat_toNat, BitVec.setWidth_eq]

/-- No digit has two values. -/
theorem Spells.unique {c : Byte} {v w : Nat} (hv : Spells c v) (hw : Spells c w) : v = w :=
  Option.some.inj ((digit?_eq_some_iff.mpr hv).symm.trans (digit?_eq_some_iff.mpr hw))

/-- A numeral is one for a single number. -/
theorem Numeral.unique {text : List Byte} {n m : Nat} (hn : Numeral text n)
    (hm : Numeral text m) : n = m := by
  obtain ⟨-, digits, hdigits, rfl⟩ := hn
  obtain ⟨-, others, hothers, rfl⟩ := hm
  have hright : Relator.RightUnique Spells := fun _ _ _ h h' => h.unique h'
  rw [hright.forall₂ hdigits hothers]

theorem decode?_eq_some_iff {text data : List Byte} :
    decode? text = some data ↔ Pairs text data := by
  constructor
  · intro h
    induction text using decode?.induct generalizing data with
    | case1 =>
        obtain rfl := Option.some.inj h
        exact .nil
    | case2 c => cases h
    | case3 high low text ih =>
        simp only [decode?, Option.bind_eq_bind, Option.bind_eq_some_iff] at h
        obtain ⟨b, hb, rest, hrest, h⟩ := h
        obtain rfl := Option.some.inj h
        obtain ⟨h, l, hhigh, hlow, hvalue⟩ := pair?_eq_some_iff.mp hb
        exact .cons hhigh hlow hvalue (ih hrest)
  · intro h
    induction h with
    | nil => rfl
    | @cons high low b h l text data hhigh hlow hvalue hrest ih =>
        have hpair : pair? high low = some b := pair?_eq_some_iff.mpr ⟨h, l, hhigh, hlow, hvalue⟩
        simp only [decode?, hpair, ih, Option.bind_eq_bind, Option.bind_some]
        rfl

/-! ### Marks between numerals -/

/-- What is no digit does not occur in a numeral. -/
theorem Numeral.not_mem {text : List Byte} {n : Nat} (h : Numeral text n) {mark : Byte}
    (hmark : digit? mark = none) : mark ∉ text := by
  obtain ⟨-, digits, hdigits, -⟩ := h
  clear n
  induction hdigits with
  | nil => exact List.not_mem_nil
  | @cons c v text digits hc hdigits ih =>
      rw [List.mem_cons, not_or]
      refine ⟨?_, ih⟩
      rintro rfl
      rw [digit?_eq_some_iff.mpr hc] at hmark
      cases hmark

end Hex

end HomeComputer
