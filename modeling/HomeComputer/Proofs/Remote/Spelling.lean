/-
Which texts are hexadecimal, and what they are read as.

`Numeral` and `Pairs` say what a text spells by way of the values of its digits.  Here the same is
told from the bytes of the text: which of them are digits, what each is worth, and what they make
in base 16.  Twenty-two bytes are digits, the letters in both cases, and none above 0x7f is.

A number is read if there is a digit, there is nothing else, and the value fits a word, however
many zeros are in front.  Data is read if the digits come in pairs; the induction is on the pairs,
as `decode?` takes them off.  Writing and reading data undo each other but for the case of the
letters, which reading forgets and writing makes lower.
-/
import HomeComputer.Proofs.Remote.Hexadecimal
import HomeComputer.Proofs.Remote.Replies

namespace HomeComputer

namespace Hex

/-! ### Single digits -/

/-- The digits, those above nine in either case. -/
def alphabet : List Byte := Text.ascii "0123456789abcdefABCDEF"

/-- A capital letter as a small one, and any other byte as it is. -/
def lowerCase (c : Byte) : Byte := if 0x41 ≤ c.toNat ∧ c.toNat ≤ 0x5a then c + 0x20#8 else c

/-- What a digit counts for, which is its place among the small ones. -/
def worth (c : Byte) : Nat := (Text.ascii "0123456789abcdef").idxOf (lowerCase c)

theorem digit?_eq : ∀ c : Byte, digit? c = if c ∈ alphabet then some (worth c) else none := by
  decide +kernel

theorem lowerDigit_worth : ∀ c ∈ alphabet, lowerDigit (worth c) = lowerCase c := by
  decide

theorem spells_iff {c : Byte} {v : Nat} : Spells c v ↔ c ∈ alphabet ∧ worth c = v := by
  rw [← digit?_eq_some_iff, digit?_eq]
  by_cases hc : c ∈ alphabet <;> simp [hc]

/-! ### Numbers -/

/-- The number of a text in base 16, highest digit first. -/
def value (text : List Byte) : Nat := Nat.ofDigits 16 (text.map worth).reverse

theorem forall₂_spells_iff {text : List Byte} {values : List Nat} :
    List.Forall₂ Spells text values ↔
      (∀ c ∈ text, c ∈ alphabet) ∧ text.map worth = values := by
  have hspells : Spells = fun c v => c ∈ alphabet ∧ worth c = v := by
    funext c v
    exact propext spells_iff
  rw [hspells, List.forall₂_and_left, ← List.forall₂_map_left_iff, List.forall₂_eq_eq_eq]

theorem numeral_iff {text : List Byte} {n : Nat} :
    Numeral text n ↔ text ≠ [] ∧ (∀ c ∈ text, c ∈ alphabet) ∧ value text = n := by
  unfold Numeral
  simp only [forall₂_spells_iff]
  constructor
  · rintro ⟨hne, values, ⟨hdigits, rfl⟩, hn⟩
    exact ⟨hne, hdigits, hn⟩
  · rintro ⟨hne, hdigits, hn⟩
    exact ⟨hne, text.map worth, ⟨hdigits, rfl⟩, hn⟩

/-- The texts that are read as numbers. -/
theorem toNat_number?_eq_some_iff {text : List Byte} {n : Nat} :
    (number? text).map BitVec.toNat = some n ↔
      text ≠ [] ∧ (∀ c ∈ text, c ∈ alphabet) ∧ value text = n ∧ n < 2 ^ 32 := by
  rw [Option.map_eq_some_iff]
  constructor
  · rintro ⟨w, hw, rfl⟩
    obtain ⟨hne, hdigits, hvalue⟩ := numeral_iff.mp (number?_eq_some_iff.mp hw)
    exact ⟨hne, hdigits, hvalue, w.isLt⟩
  · rintro ⟨hne, hdigits, hvalue, hn⟩
    have hnat : (BitVec.ofNat 32 n).toNat = n := Word.toNat_ofNat_of_lt hn
    refine ⟨BitVec.ofNat 32 n, number?_eq_some_iff.mpr ?_, hnat⟩
    rw [hnat]
    exact numeral_iff.mpr ⟨hne, hdigits, hvalue⟩

theorem numberFrom?_zeros (zeros : Nat) (text : List Byte) :
    numberFrom? 0 (List.replicate zeros 0x30#8 ++ text) = numberFrom? 0 text := by
  induction zeros with
  | zero => rfl
  | succ zeros ih =>
      rw [List.replicate_succ, List.cons_append, numberFrom?_cons]
      exact ih

/-- Zeros in front of a number make no difference. -/
theorem number?_zeros (zeros : Nat) (c : Byte) (text : List Byte) :
    number? (List.replicate zeros 0x30#8 ++ c :: text) = number? (c :: text) := by
  cases zeros with
  | zero => rfl
  | succ zeros =>
      have hfrom := numberFrom?_zeros (zeros + 1) (c :: text)
      exact congrArg (Option.map (BitVec.ofNat 32)) hfrom

/-! ### Data -/

theorem Pairs.digits {text data : List Byte} (h : Pairs text data) :
    2 ∣ text.length ∧ ∀ c ∈ text, c ∈ alphabet := by
  induction h with
  | nil => exact ⟨Nat.dvd_zero 2, nofun⟩
  | @cons high low b h l text data hhigh hlow hvalue hrest ih =>
      obtain ⟨heven, hdigits⟩ := ih
      refine ⟨?_, ?_⟩
      · rw [List.length_cons, List.length_cons]
        omega
      · intro c hc
        rw [List.mem_cons, List.mem_cons] at hc
        rcases hc with rfl | rfl | hc
        · exact (spells_iff.mp hhigh).1
        · exact (spells_iff.mp hlow).1
        · exact hdigits c hc

theorem exists_pairs {text : List Byte} (heven : 2 ∣ text.length)
    (hdigits : ∀ c ∈ text, c ∈ alphabet) : ∃ data, Pairs text data := by
  induction text using decode?.induct with
  | case1 => exact ⟨[], .nil⟩
  | case2 c =>
      rw [List.length_singleton] at heven
      omega
  | case3 high low text ih =>
      have heven' : 2 ∣ text.length := by
        rw [List.length_cons, List.length_cons] at heven
        omega
      obtain ⟨data, hdata⟩ := ih heven' fun c hc => hdigits c (by simp [hc])
      have hhigh : Spells high (worth high) := spells_iff.mpr ⟨hdigits high (by simp), rfl⟩
      have hlow : Spells low (worth low) := spells_iff.mpr ⟨hdigits low (by simp), rfl⟩
      have hbyte : 16 * worth high + worth low < 256 := by
        have hhigh' := hhigh.1
        have hlow' := hlow.1
        omega
      refine ⟨BitVec.ofNat 8 (16 * worth high + worth low) :: data, .cons hhigh hlow ?_ hdata⟩
      rw [BitVec.toNat_ofNat, Nat.mod_eq_of_lt hbyte]

/-- The texts that are read as data. -/
theorem isSome_decode?_iff {text : List Byte} :
    (decode? text).isSome ↔ 2 ∣ text.length ∧ ∀ c ∈ text, c ∈ alphabet := by
  rw [Option.isSome_iff_exists]
  simp only [decode?_eq_some_iff]
  constructor
  · rintro ⟨data, hdata⟩
    exact hdata.digits
  · rintro ⟨heven, hdigits⟩
    exact exists_pairs heven hdigits

theorem Spells.lowerDigit_eq {c : Byte} {v : Nat} (h : Spells c v) :
    lowerDigit v = lowerCase c := by
  obtain ⟨hc, rfl⟩ := spells_iff.mp h
  exact lowerDigit_worth c hc

/-- Data is written as it was read, but for the case of the letters. -/
theorem Pairs.encode_eq {text data : List Byte} (h : Pairs text data) :
    encode data = text.map lowerCase := by
  induction h with
  | nil => rfl
  | @cons high low b h l text data hhigh hlow hvalue hrest ih =>
      have hlt := hlow.1
      have hh : b.toNat / 16 = h := by omega
      have hl : b.toNat % 16 = l := by omega
      rw [encode, hh, hl, hhigh.lowerDigit_eq, hlow.lowerDigit_eq, ih]
      rfl

/-- **Hexadecimal is read and written exactly.**  A number is read from a text of one digit or
more, of digits only, whose value fits a word, with any number of zeros in front; data from one of
an even number of digits and nothing else.  Data that is written is read back, and data that was
read is written as the same text in lower case. -/
theorem hexadecimal_exact :
    (∀ (text : List Byte) (n : Nat), (number? text).map BitVec.toNat = some n ↔
      text ≠ [] ∧ (∀ c ∈ text, c ∈ alphabet) ∧ value text = n ∧ n < 2 ^ 32) ∧
    (∀ (zeros : Nat) (c : Byte) (text : List Byte),
      number? (List.replicate zeros 0x30#8 ++ c :: text) = number? (c :: text)) ∧
    (∀ text : List Byte,
      (decode? text).isSome ↔ 2 ∣ text.length ∧ ∀ c ∈ text, c ∈ alphabet) ∧
    (∀ data : List Byte, decode? (encode data) = some data) ∧
    ∀ text data : List Byte, decode? text = some data → encode data = text.map lowerCase := by
  refine ⟨?_, number?_zeros, ?_, decode?_encode, ?_⟩
  · intro text n
    exact toNat_number?_eq_some_iff
  · intro text
    exact isSome_decode?_iff
  · intro text data h
    exact (decode?_eq_some_iff.mp h).encode_eq

/-- Letters of both cases in one text, and the greatest number with zeros in front. -/
theorem hexadecimal_exact_mixed :
    let text := Text.ascii "00aB7f"
    let data : List Byte := [0x00#8, 0xab#8, 0x7f#8]
    decode? text = some data ∧ encode data = Text.ascii "00ab7f" ∧
      (number? (Text.ascii "00ffFFffFF")).map BitVec.toNat = some 0xffffffff := by
  intro text data
  obtain ⟨hnumber, -, -, -, hwritten⟩ := hexadecimal_exact
  have hread : decode? text = some data := by decide
  refine ⟨hread, ?_, ?_⟩
  · rw [hwritten text data hread]
    decide
  · exact (hnumber _ _).mpr (by decide)

end Hex

end HomeComputer
