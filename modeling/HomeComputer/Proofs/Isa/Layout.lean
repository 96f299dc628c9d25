/-
A word and what it is divided into say the same.

`Manual.Parts` are the numbers that a format divides a word into, and `Parts.word` puts them
together again, each at the weight of the place that the manual gives it.  Nothing of the
library's cutting is used for that.  Three formats have their immediates in pieces, in an order of
its own each, and there it has to be seen that no two pieces overlap and that none is missing.

Both directions go through the typed fields of an instruction.  Those are put back at the same
places (`toNat_toWord`), and cutting and putting back undo each other.  Typed fields are in range
by themselves, and numbers in range are those of typed fields (`parts_ofParts`), so what holds of
fields holds of numbers.

A joined immediate has its sign at its own highest bit.  Extending it from there gives the word
that the operations reckon with, and that word has the manual's value.
-/
import HomeComputer.Proofs.Isa.Fields
import HomeComputer.Proofs.Isa.Integers

namespace HomeComputer

/-! ### The manual's places -/

namespace Manual

/-- What a format divides a word into.  An immediate is the number that all its bits make, each at
its own weight, without a sign and with zeros for the bits that the word does not have. -/
inductive Parts
  | r (funct7 rs2 rs1 funct3 rd opcode : Nat)
  | i (imm rs1 funct3 rd opcode : Nat)
  | s (imm rs2 rs1 funct3 opcode : Nat)
  | b (imm rs2 rs1 funct3 opcode : Nat)
  | u (imm rd opcode : Nat)
  | j (imm rd opcode : Nat)
  deriving DecidableEq, Repr

/-- The number in the `len` bits of an immediate from bit `start` on. -/
def piece (imm start len : Nat) : Nat := imm / 2 ^ start % 2 ^ len

namespace Parts

def format : Parts → Format
  | r .. => .R | i .. => .I | s .. => .S | b .. => .B | u .. => .U | j .. => .J

/-- Every field has room in its place, and the immediate is one that the format can say:
distances are even, and the upper part of a word has nothing below it. -/
def Fits : Parts → Prop
  | r funct7 rs2 rs1 funct3 rd opcode =>
      funct7 < 2 ^ 7 ∧ rs2 < 2 ^ 5 ∧ rs1 < 2 ^ 5 ∧ funct3 < 2 ^ 3 ∧ rd < 2 ^ 5 ∧ opcode < 2 ^ 7
  | i imm rs1 funct3 rd opcode =>
      imm < 2 ^ 12 ∧ rs1 < 2 ^ 5 ∧ funct3 < 2 ^ 3 ∧ rd < 2 ^ 5 ∧ opcode < 2 ^ 7
  | s imm rs2 rs1 funct3 opcode =>
      imm < 2 ^ 12 ∧ rs2 < 2 ^ 5 ∧ rs1 < 2 ^ 5 ∧ funct3 < 2 ^ 3 ∧ opcode < 2 ^ 7
  | b imm rs2 rs1 funct3 opcode =>
      (imm < 2 ^ 13 ∧ 2 ∣ imm) ∧ rs2 < 2 ^ 5 ∧ rs1 < 2 ^ 5 ∧ funct3 < 2 ^ 3 ∧ opcode < 2 ^ 7
  | u imm rd opcode => (imm < 2 ^ 32 ∧ 2 ^ 12 ∣ imm) ∧ rd < 2 ^ 5 ∧ opcode < 2 ^ 7
  | j imm rd opcode => (imm < 2 ^ 21 ∧ 2 ∣ imm) ∧ rd < 2 ^ 5 ∧ opcode < 2 ^ 7

instance : DecidablePred Fits
  | r .. | i .. | s .. | b .. | u .. | j .. => inferInstanceAs (Decidable (_ ∧ _))

/-- The word that the parts make up. -/
def word : Parts → Nat
  | r funct7 rs2 rs1 funct3 rd opcode =>
      2 ^ 25 * funct7 + 2 ^ 20 * rs2 + 2 ^ 15 * rs1 + 2 ^ 12 * funct3 + 2 ^ 7 * rd + opcode
  | i imm rs1 funct3 rd opcode =>
      2 ^ 20 * imm + 2 ^ 15 * rs1 + 2 ^ 12 * funct3 + 2 ^ 7 * rd + opcode
  | s imm rs2 rs1 funct3 opcode =>
      2 ^ 25 * piece imm 5 7 + 2 ^ 20 * rs2 + 2 ^ 15 * rs1 + 2 ^ 12 * funct3 +
        2 ^ 7 * piece imm 0 5 + opcode
  | b imm rs2 rs1 funct3 opcode =>
      2 ^ 31 * piece imm 12 1 + 2 ^ 25 * piece imm 5 6 + 2 ^ 20 * rs2 + 2 ^ 15 * rs1 +
        2 ^ 12 * funct3 + 2 ^ 8 * piece imm 1 4 + 2 ^ 7 * piece imm 11 1 + opcode
  | u imm rd opcode => 2 ^ 12 * piece imm 12 20 + 2 ^ 7 * rd + opcode
  | j imm rd opcode =>
      2 ^ 31 * piece imm 20 1 + 2 ^ 21 * piece imm 1 10 + 2 ^ 20 * piece imm 11 1 +
        2 ^ 12 * piece imm 12 8 + 2 ^ 7 * rd + opcode

end Parts

/-- The signed value of a word's immediate. -/
def offset? : Format → Word → Option Int
  | .R, _ => none
  | .I, w => some (immI w)
  | .S, w => some (immS w)
  | .B, w => some (immB w)
  | .U, w => some (immU w)
  | .J, w => some (immJ w)

/-- Pieces of a number that was moved up are pieces of the number itself, further down. -/
theorem piece_mul_two_pow (n k start len : Nat) :
    piece (n * 2 ^ k) (start + k) len = piece n start len := by
  unfold piece
  rw [Nat.pow_add, Nat.mul_div_mul_right _ _ (Nat.two_pow_pos k)]

theorem piece_all {n len : Nat} (h : n < 2 ^ len) : piece n 0 len = n := by
  unfold piece
  rw [Nat.pow_zero, Nat.div_one, Nat.mod_eq_of_lt h]

theorem toNat_extractLsb' {n : Nat} (x : BitVec n) (start len : Nat) :
    (x.extractLsb' start len).toNat = piece x.toNat start len := by
  rw [BitVec.extractLsb'_toNat, Nat.shiftRight_eq_div_pow]
  rfl

end Manual

/-! ### The parts of an instruction -/

namespace Instruction

/-- The number of an immediate, as it is kept: zero where there is none. -/
def immediateNumber (insn : Instruction) : Nat := (insn.immediate?.getD 0#32).toNat

/-- The fields and the immediate as numbers. -/
def parts (insn : Instruction) : Manual.Parts :=
  match insn with
  | .r opcode rd funct3 rs1 rs2 funct7 =>
      .r funct7.toNat rs2.toNat rs1.toNat funct3.toNat rd.toNat opcode.toNat
  | .i opcode rd funct3 rs1 _ =>
      .i insn.immediateNumber rs1.toNat funct3.toNat rd.toNat opcode.toNat
  | .s opcode funct3 rs1 rs2 _ =>
      .s insn.immediateNumber rs2.toNat rs1.toNat funct3.toNat opcode.toNat
  | .b opcode funct3 rs1 rs2 _ =>
      .b insn.immediateNumber rs2.toNat rs1.toNat funct3.toNat opcode.toNat
  | .u opcode rd _ => .u insn.immediateNumber rd.toNat opcode.toNat
  | .j opcode rd _ => .j insn.immediateNumber rd.toNat opcode.toNat

theorem immediateNumber_eq (insn : Instruction) :
    insn.immediateNumber =
      match insn with
      | .r .. => 0
      | .i _ _ _ _ imm => imm.toNat
      | .s _ _ _ _ imm => imm.toNat
      | .b _ _ _ _ half => half.toNat * 2 ^ 1
      | .u _ _ upper => upper.toNat * 2 ^ 12
      | .j _ _ half => half.toNat * 2 ^ 1 := by
  cases insn with
  | r opcode rd funct3 rs1 rs2 funct7 => rfl
  | i opcode rd funct3 rs1 imm => exact BitVec.toNat_setWidth_of_le (by decide)
  | s opcode funct3 rs1 rs2 imm => exact BitVec.toNat_setWidth_of_le (by decide)
  | b opcode funct3 rs1 rs2 half =>
      exact (BitVec.toNat_setWidth_of_le (by decide)).trans (Word.toNat_append_zero half 1)
  | u opcode rd upper => exact Word.toNat_append_zero upper 12
  | j opcode rd half =>
      exact (BitVec.toNat_setWidth_of_le (by decide)).trans (Word.toNat_append_zero half 1)

@[simp] theorem format_parts (insn : Instruction) : insn.parts.format = insn.format := by
  cases insn <;> rfl

theorem fits_parts (insn : Instruction) : insn.parts.Fits := by
  cases insn with
  | r opcode rd funct3 rs1 rs2 funct7 =>
      exact ⟨funct7.isLt, rs2.isLt, rs1.isLt, funct3.isLt, rd.isLt, opcode.isLt⟩
  | i opcode rd funct3 rs1 imm =>
      simp only [parts, immediateNumber_eq]
      exact ⟨imm.isLt, rs1.isLt, funct3.isLt, rd.isLt, opcode.isLt⟩
  | s opcode funct3 rs1 rs2 imm =>
      simp only [parts, immediateNumber_eq]
      exact ⟨imm.isLt, rs2.isLt, rs1.isLt, funct3.isLt, opcode.isLt⟩
  | b opcode funct3 rs1 rs2 half =>
      have hhalf := half.isLt
      simp only [parts, immediateNumber_eq]
      exact ⟨⟨by omega, by omega⟩, rs2.isLt, rs1.isLt, funct3.isLt, opcode.isLt⟩
  | u opcode rd upper =>
      have hupper := upper.isLt
      simp only [parts, immediateNumber_eq]
      exact ⟨⟨by omega, by omega⟩, rd.isLt, opcode.isLt⟩
  | j opcode rd half =>
      have hhalf := half.isLt
      simp only [parts, immediateNumber_eq]
      exact ⟨⟨by omega, by omega⟩, rd.isLt, opcode.isLt⟩

/-- The fields with the given numbers. -/
def ofParts : Manual.Parts → Instruction
  | .r funct7 rs2 rs1 funct3 rd opcode =>
      .r (.ofNat 7 opcode) (.ofNat 5 rd) (.ofNat 3 funct3) (.ofNat 5 rs1) (.ofNat 5 rs2)
        (.ofNat 7 funct7)
  | .i imm rs1 funct3 rd opcode =>
      .i (.ofNat 7 opcode) (.ofNat 5 rd) (.ofNat 3 funct3) (.ofNat 5 rs1) (.ofNat 12 imm)
  | .s imm rs2 rs1 funct3 opcode =>
      .s (.ofNat 7 opcode) (.ofNat 3 funct3) (.ofNat 5 rs1) (.ofNat 5 rs2) (.ofNat 12 imm)
  | .b imm rs2 rs1 funct3 opcode =>
      .b (.ofNat 7 opcode) (.ofNat 3 funct3) (.ofNat 5 rs1) (.ofNat 5 rs2) (.ofNat 12 (imm / 2))
  | .u imm rd opcode => .u (.ofNat 7 opcode) (.ofNat 5 rd) (.ofNat 20 (imm / 2 ^ 12))
  | .j imm rd opcode => .j (.ofNat 7 opcode) (.ofNat 5 rd) (.ofNat 20 (imm / 2))

/-- Numbers in range are those of some fields. -/
theorem parts_ofParts {p : Manual.Parts} (h : p.Fits) : (ofParts p).parts = p := by
  cases p with
  | r funct7 rs2 rs1 funct3 rd opcode =>
      obtain ⟨hfunct7, hrs2, hrs1, hfunct3, hrd, hopcode⟩ := h
      simp (disch := assumption) only [ofParts, parts, BitVec.toNat_ofNat, Nat.mod_eq_of_lt]
  | i imm rs1 funct3 rd opcode =>
      obtain ⟨himm, hrs1, hfunct3, hrd, hopcode⟩ := h
      simp (disch := assumption) only [ofParts, parts, immediateNumber_eq, BitVec.toNat_ofNat,
        Nat.mod_eq_of_lt]
  | s imm rs2 rs1 funct3 opcode =>
      obtain ⟨himm, hrs2, hrs1, hfunct3, hopcode⟩ := h
      simp (disch := assumption) only [ofParts, parts, immediateNumber_eq, BitVec.toNat_ofNat,
        Nat.mod_eq_of_lt]
  | b imm rs2 rs1 funct3 opcode =>
      obtain ⟨⟨himm, heven⟩, hrs2, hrs1, hfunct3, hopcode⟩ := h
      have hhalf : imm / 2 < 2 ^ 12 := by omega
      simp (disch := assumption) only [ofParts, parts, immediateNumber_eq, BitVec.toNat_ofNat,
        Nat.mod_eq_of_lt, Nat.pow_one, Nat.div_mul_cancel]
  | u imm rd opcode =>
      obtain ⟨⟨himm, hupper⟩, hrd, hopcode⟩ := h
      have hhigh : imm / 2 ^ 12 < 2 ^ 20 := by omega
      simp (disch := assumption) only [ofParts, parts, immediateNumber_eq, BitVec.toNat_ofNat,
        Nat.mod_eq_of_lt, Nat.div_mul_cancel]
  | j imm rd opcode =>
      obtain ⟨⟨himm, heven⟩, hrd, hopcode⟩ := h
      have hhalf : imm / 2 < 2 ^ 20 := by omega
      simp (disch := assumption) only [ofParts, parts, immediateNumber_eq, BitVec.toNat_ofNat,
        Nat.mod_eq_of_lt, Nat.pow_one, Nat.div_mul_cancel]

/-! ### The word -/

open Manual (piece piece_mul_two_pow piece_all toNat_extractLsb')

/-- Fields are put back at the manual's places. -/
theorem toNat_toWord (insn : Instruction) : insn.toWord.toNat = insn.parts.word := by
  cases insn with
  | r opcode rd funct3 rs1 rs2 funct7 =>
      simp only [toWord, parts, Manual.Parts.word, Word.toNat_append]
      omega
  | i opcode rd funct3 rs1 imm =>
      simp only [toWord, parts, immediateNumber_eq, Manual.Parts.word, Word.toNat_append]
      omega
  | s opcode funct3 rs1 rs2 imm =>
      simp only [toWord, parts, immediateNumber_eq, Manual.Parts.word, Word.toNat_append,
        toNat_extractLsb']
      omega
  | b opcode funct3 rs1 rs2 half =>
      simp only [toWord, parts, immediateNumber_eq, Manual.Parts.word, Word.toNat_append,
        toNat_extractLsb']
      -- A piece of the distance is the piece of its half one place further down.
      have hsign : piece (half.toNat * 2 ^ 1) 12 1 = piece half.toNat 11 1 :=
        piece_mul_two_pow half.toNat 1 11 1
      have hhigh : piece (half.toNat * 2 ^ 1) 5 6 = piece half.toNat 4 6 :=
        piece_mul_two_pow half.toNat 1 4 6
      have hlow : piece (half.toNat * 2 ^ 1) 1 4 = piece half.toNat 0 4 :=
        piece_mul_two_pow half.toNat 1 0 4
      have htop : piece (half.toNat * 2 ^ 1) 11 1 = piece half.toNat 10 1 :=
        piece_mul_two_pow half.toNat 1 10 1
      omega
  | u opcode rd upper =>
      simp only [toWord, parts, immediateNumber_eq, Manual.Parts.word, Word.toNat_append]
      have hpiece : piece (upper.toNat * 2 ^ 12) 12 20 = upper.toNat :=
        (piece_mul_two_pow upper.toNat 12 0 20).trans (piece_all upper.isLt)
      omega
  | j opcode rd half =>
      simp only [toWord, parts, immediateNumber_eq, Manual.Parts.word, Word.toNat_append,
        toNat_extractLsb']
      have hsign : piece (half.toNat * 2 ^ 1) 20 1 = piece half.toNat 19 1 :=
        piece_mul_two_pow half.toNat 1 19 1
      have hlow : piece (half.toNat * 2 ^ 1) 1 10 = piece half.toNat 0 10 :=
        piece_mul_two_pow half.toNat 1 0 10
      have hbit : piece (half.toNat * 2 ^ 1) 11 1 = piece half.toNat 10 1 :=
        piece_mul_two_pow half.toNat 1 10 1
      have hhigh : piece (half.toNat * 2 ^ 1) 12 8 = piece half.toNat 11 8 :=
        piece_mul_two_pow half.toNat 1 11 8
      omega

/-- The word of parts in range is cut into these parts. -/
theorem parts_ofWord_word {p : Manual.Parts} (h : p.Fits) :
    p.word < 2 ^ 32 ∧ (ofWord p.format (BitVec.ofNat 32 p.word)).parts = p := by
  obtain ⟨insn, rfl⟩ : ∃ insn : Instruction, insn.parts = p := ⟨ofParts p, parts_ofParts h⟩
  rw [← toNat_toWord, BitVec.ofNat_toNat, BitVec.setWidth_eq, format_parts, ofWord_toWord]
  exact ⟨insn.toWord.isLt, rfl⟩

end Instruction

/-! ### Signs -/

namespace Word

/-- The word whose low `n` bits are those of `v`, the highest of them as a sign: up to the top of
the word, and down again with the sign filled in. -/
def signExtendFrom (v : Word) (n : Nat) : Word := (v <<< (32 - n)).sshiftRight (32 - n)

theorem signExtendFrom_eq_ofSigned (v : Word) {n : Nat} (hpos : 0 < n) (hn : n ≤ 32) :
    v.signExtendFrom n = ofSigned (v.setWidth n) := by
  rw [ofSigned_eq_signExtend]
  apply BitVec.eq_of_getLsbD_eq
  intro i hi
  unfold signExtendFrom
  rw [BitVec.getLsbD_sshiftRight, BitVec.getLsbD_signExtend]
  by_cases hin : i < n
  · have hkept : 32 - n + i < 32 := by omega
    have hback : 32 - n + i - (32 - n) = i := by omega
    simp [hin, hi, hkept, hback, Nat.not_le.mpr hi]
  · have habove : ¬32 - n + i < 32 := by omega
    -- Both fill in bit `n - 1`, which the way up makes the highest.
    have hsign : (v <<< (32 - n)).msb = v.getLsbD (n - 1) := by
      have hlast : 32 - 1 - (32 - n) = n - 1 := by omega
      have hplace : ¬32 - 1 < 32 - n := by omega
      rw [BitVec.msb_eq_getLsbD_last, BitVec.getLsbD_shiftLeft, hlast]
      simp [hplace]
    have hmsb : (v.setWidth n).msb = v.getLsbD (n - 1) := by
      rw [BitVec.msb_setWidth]
      simp [hpos]
    simp [hi, hin, habove, hsign, hmsb, Nat.not_le.mpr hi]

theorem signExtendFrom_setWidth {n : Nat} (hpos : 0 < n) (hn : n ≤ 32) (x : BitVec n) :
    signExtendFrom (x.setWidth 32) n = ofSigned x := by
  rw [signExtendFrom_eq_ofSigned _ hpos hn, BitVec.setWidth_setWidth_of_le _ hn,
    BitVec.setWidth_eq]

end Word

/-- How many bits the immediate of a format has, down to the one of weight one.  The highest of
them is the sign. -/
def Format.immediateWidth : Format → Nat
  | .R => 0
  | .I | .S => 12
  | .B => 13
  | .U => 32
  | .J => 21

namespace Instruction

/-- The immediate with its sign, as the operations of each format use it. -/
def offset? : Instruction → Option Word
  | .r .. => none
  | .i _ _ _ _ imm => some (signedImmediate imm)
  | .s _ _ _ _ imm => some (signedImmediate imm)
  | .b _ _ _ _ half => some (branchOffset half)
  | .u _ _ upper => some (upperImmediate upper)
  | .j _ _ half => some (jumpOffset half)

theorem map_signExtendFrom_immediate? (insn : Instruction) :
    insn.immediate?.map (·.signExtendFrom insn.format.immediateWidth) = insn.offset? := by
  cases insn with
  | r opcode rd funct3 rs1 rs2 funct7 => rfl
  | i opcode rd funct3 rs1 imm =>
      exact congrArg some (Word.signExtendFrom_setWidth (by decide) (by decide) imm)
  | s opcode funct3 rs1 rs2 imm =>
      exact congrArg some (Word.signExtendFrom_setWidth (by decide) (by decide) imm)
  | b opcode funct3 rs1 rs2 half =>
      exact congrArg some (Word.signExtendFrom_setWidth (by decide) (by decide) (half ++ 0#1))
  | u opcode rd upper =>
      have hwhole :=
        Word.signExtendFrom_eq_ofSigned (upperImmediate upper) (by decide) (Nat.le_refl 32)
      rw [BitVec.setWidth_eq, Word.ofSigned_eq_signExtend, BitVec.signExtend_eq] at hwhole
      exact congrArg some hwhole
  | j opcode rd half =>
      exact congrArg some (Word.signExtendFrom_setWidth (by decide) (by decide) (half ++ 0#1))

theorem map_toInt_offset? (f : Format) (w : Word) :
    (ofWord f w).offset?.map BitVec.toInt = Manual.offset? f w := by
  cases f with
  | R => rfl
  | I => exact congrArg some (Manual.toInt_immI w)
  | S => exact congrArg some (Manual.toInt_immS w)
  | B => exact congrArg some (Manual.toInt_immB w)
  | U => exact congrArg some (Manual.toInt_immU w)
  | J => exact congrArg some (Manual.toInt_immJ w)

/-- **A word and its fields say the same**, in every format.  The fields and the immediate of a
word are in range and make up that word at the manual's places; any fields and immediate in range
make up a word that is divided into them again; and the immediate, with its sign extended from
where it is kept, is what the operations use and has the value that the manual gives it. -/
theorem fields_make_up_words (f : Format) :
    (∀ w : Word, (ofWord f w).parts.format = f ∧ (ofWord f w).parts.Fits ∧
      (ofWord f w).parts.word = w.toNat) ∧
    (∀ p : Manual.Parts, p.format = f → p.Fits →
      p.word < 2 ^ 32 ∧ (ofWord f (BitVec.ofNat 32 p.word)).parts = p) ∧
    ∀ w : Word,
      (ofWord f w).immediate?.map (·.signExtendFrom f.immediateWidth) = (ofWord f w).offset? ∧
      (ofWord f w).offset?.map BitVec.toInt = Manual.offset? f w := by
  refine ⟨fun w => ⟨?_, fits_parts _, ?_⟩, ?_, fun w => ⟨?_, map_toInt_offset? f w⟩⟩
  · rw [format_parts, format_ofWord]
  · rw [← toNat_toWord, toWord_ofWord]
  · rintro p rfl hfits
    exact parts_ofWord_word hfits
  · have hsigned := map_signExtendFrom_immediate? (ofWord f w)
    rwa [format_ofWord] at hsigned

/-- A jump back by eight bytes: all four pieces of the distance are ones but for the lowest bits. -/
theorem fields_make_up_words_jump_back :
    let p : Manual.Parts := .j 0x1ffff8 0 0x6f
    p.format = .J ∧ p.Fits ∧ p.word = 0xff9ff06f ∧ (ofWord .J 0xff9ff06f#32).parts = p ∧
      (ofWord .J 0xff9ff06f#32).offset?.map BitVec.toInt = some (-8) := by
  intro p
  obtain ⟨-, hparts, hsigned⟩ := fields_make_up_words .J
  have hformat : p.format = .J := by decide
  have hfits : p.Fits := by decide
  refine ⟨hformat, hfits, by decide, ?_, ?_⟩
  · exact (hparts p hformat hfits).2
  · rw [(hsigned 0xff9ff06f#32).2]
    decide

end Instruction

end HomeComputer
