/-
Stores, byte by byte.

A store is changed by words and by whole pages.  Seen as bytes, each of its operations
replaces the bytes it names and leaves all others as they were: a write the enabled lanes of
one word, putting and filling a range.  Whoever reasons about a store from here on sees
`byte` alone and neither pages nor masks.
-/
import HomeComputer.Memory.Store
import HomeComputer.Proofs.Memory.ByteMemory

namespace HomeComputer

namespace Word

theorem ofBytes_bytes (w : Word) : ofBytes (w.byte 0) (w.byte 1) (w.byte 2) (w.byte 3) = w :=
  Option.some.inj (ofBytes?_bytes w)

theorem bytes_ofBytes (b₀ b₁ b₂ b₃ : Byte) :
    bytes (ofBytes b₀ b₁ b₂ b₃) = [b₀, b₁, b₂, b₃] := by
  have hbit (i : Nat) : (ofBytes b₀ b₁ b₂ b₃).getLsbD i = (b₃ ++ b₂ ++ b₁ ++ b₀).getLsbD i := rfl
  have hbyte (i : Nat) (b : Byte)
      (h : ∀ j < 8, (b₃ ++ b₂ ++ b₁ ++ b₀).getLsbD (8 * i + j) = b.getLsbD j) :
      byte (ofBytes b₀ b₁ b₂ b₃) i = b :=
    BitVec.eq_of_getLsbD_eq fun j hj => by
      rw [getLsbD_byte, decide_eq_true hj, Bool.true_and, hbit, h j hj]
  simp only [BitVec.getLsbD_append] at hbyte
  have h₀ := hbyte 0 b₀ fun j hj => by rw [if_pos (by omega), show 8 * 0 + j = j by omega]
  have h₁ := hbyte 1 b₁ fun j hj => by
    rw [if_neg (by omega), if_pos (by omega), show 8 * 1 + j - 8 = j by omega]
  have h₂ := hbyte 2 b₂ fun j hj => by
    rw [if_neg (by omega), if_neg (by omega), if_pos (by omega),
      show 8 * 2 + j - 8 - 8 = j by omega]
  have h₃ := hbyte 3 b₃ fun j hj => by
    rw [if_neg (by omega), if_neg (by omega), if_neg (by omega),
      show 8 * 3 + j - 8 - 8 - 8 = j by omega]
  rw [bytes, h₀, h₁, h₂, h₃]

end Word

namespace Store

/-! ### Words and lanes -/

theorem byte_repeated (b : Byte) {lane : Nat} (hlane : lane < 4) :
    Word.byte (repeated b) lane = b := by
  apply BitVec.eq_of_getLsbD_eq
  intro j hj
  have hplace : lane = 0 ∨ lane = 1 ∨ lane = 2 ∨ lane = 3 := by omega
  rw [Word.getLsbD_byte, repeated_eq]
  simp only [BitVec.getLsbD_append]
  rcases hplace with rfl | rfl | rfl | rfl
  · simp [hj]
  · simp [hj, show ¬8 + j < 8 by omega]
  · simp [hj, show ¬16 + j < 8 by omega, show ¬16 + j - 8 < 8 by omega,
      show 16 + j - 8 - 8 = j by omega]
  · simp [hj, show ¬24 + j < 8 by omega, show ¬24 + j - 8 < 8 by omega,
      show ¬24 + j - 8 - 8 < 8 by omega, show 24 + j - 8 - 8 - 8 = j by omega]

/-- The byte at an offset from the start of a word is that byte of the word. -/
theorem byte_word (s : Store) {offset i : Nat} (hoffset : offset % 4 = 0) (hi : i < 4) :
    s.byte (offset + i) = (s.word offset).byte i := by
  unfold byte word
  rw [show (offset + i) / 4 = offset / 4 by omega, show (offset + i) % 4 = i by omega]

theorem byte_write (s : Store) (offset : Nat) (value : Word) (lanes : Lanes) (c : Nat) :
    (s.write offset value lanes).byte c =
      if c / 4 = offset / 4 ∧ lanes.getLsbD (c % 4) = true then value.byte (c % 4)
      else s.byte c := by
  have hlane : c % 4 < 4 := Nat.mod_lt c (by decide)
  unfold byte write word
  rw [getWord_setWord]
  by_cases hword : offset / 4 = c / 4
  · rw [if_pos hword, Lanes.byte_merge lanes _ value hlane, hword]
    simp
  · rw [if_neg hword, if_neg (fun h => hword h.1.symm)]

/-! ### Ranges -/

theorem byte_setByte (s : Store) (offset : Nat) (b : Byte) (c : Nat) :
    (s.setByte offset b).byte c = if c = offset then b else s.byte c := by
  have hlane : c % 4 < 4 := Nat.mod_lt c (by decide)
  unfold setByte
  rw [byte_write, byte_repeated b hlane, Lanes.getLsbD_span (by omega) hlane]
  by_cases hc : c = offset
  · rw [if_pos hc, if_pos ⟨by rw [hc], by simp [hc]⟩]
  · rw [if_neg hc, if_neg]
    rintro ⟨hword, hplace⟩
    rw [decide_eq_true_eq] at hplace
    omega

/-- A byte of the range is the one given for it, and any other stays. -/
theorem byte_setBytes (s : Store) (offset : Nat) (data : List Byte) (c : Nat) :
    (s.setBytes offset data).byte c =
      if offset ≤ c then (data[c - offset]?).getD (s.byte c) else s.byte c := by
  induction data generalizing s offset with
  | nil => simp [setBytes]
  | cons b data ih =>
      rw [setBytes, ih, byte_setByte]
      by_cases hc : c = offset
      · simp [hc]
      · by_cases hle : offset + 1 ≤ c
        · rw [if_pos hle, if_pos (by omega : offset ≤ c), if_neg hc,
            show c - offset = c - (offset + 1) + 1 by omega, List.getElem?_cons_succ]
        · rw [if_neg hle, if_neg hc, if_neg (by omega)]

end Store

end HomeComputer
