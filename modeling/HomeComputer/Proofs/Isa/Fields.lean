/-
A word is its fields.

Two pieces of a word that lie next to each other join to the piece that spans both
(`bits_append_bits`), and the pieces that a format cuts a word into leave nothing out.  So
putting the fields back gives the word again, and two words with the same fields under one
format are the same word.  Nor do the pieces overlap, so any fields are found again in the word
that they were put into.

Widening loses nothing either: a distance tells the bits that it was made from.
-/
import HomeComputer.Isa.Format

namespace HomeComputer

namespace Word

/-! ### Pieces of a word -/

theorem bits_append_bits (w : Word) {start start' len len' : Nat} (h : start' = start + len) :
    w.bits start' len' ++ w.bits start len = w.bits start (len' + len) :=
  BitVec.extractLsb'_append_extractLsb'_eq_extractLsb' h

theorem bits_all (w : Word) : w.bits 0 32 = w := by
  rw [bits_eq_extractLsb', BitVec.extractLsb'_eq_self]

end Word

namespace Instruction

/-! ### The pieces put back -/

/-- Fields put back where they were cut are the word, in every format. -/
theorem toWord_ofWord (f : Format) (w : Word) : (ofWord f w).toWord = w := by
  -- Immediates in pieces are cut up again first; then all that is left are neighbours.
  cases f with
  | R =>
      simp (disch := decide) only [ofWord, toWord, Word.opcode, Word.rd, Word.funct3, Word.rs1,
        Word.rs2, Word.funct7, Word.bits_append_bits]
      exact w.bits_all
  | I =>
      simp (disch := decide) only [ofWord, toWord, Word.opcode, Word.rd, Word.funct3, Word.rs1,
        Word.bits_append_bits]
      exact w.bits_all
  | S =>
      simp only [ofWord, toWord, BitVec.extractLsb'_append_eq_left,
        BitVec.extractLsb'_append_eq_right]
      simp (disch := decide) only [Word.opcode, Word.funct3, Word.rs1, Word.rs2,
        Word.bits_append_bits]
      exact w.bits_all
  | B =>
      simp (disch := decide) only [ofWord, toWord, BitVec.extractLsb'_append_eq_of_le,
        BitVec.extractLsb'_append_eq_of_add_le, Nat.reduceSub, BitVec.extractLsb'_eq_self]
      simp (disch := decide) only [Word.opcode, Word.funct3, Word.rs1, Word.rs2,
        Word.bits_append_bits]
      exact w.bits_all
  | U =>
      simp (disch := decide) only [ofWord, toWord, Word.opcode, Word.rd, Word.bits_append_bits]
      exact w.bits_all
  | J =>
      simp (disch := decide) only [ofWord, toWord, BitVec.extractLsb'_append_eq_of_le,
        BitVec.extractLsb'_append_eq_of_add_le, Nat.reduceSub, BitVec.extractLsb'_eq_self]
      simp (disch := decide) only [Word.opcode, Word.rd, Word.bits_append_bits]
      exact w.bits_all

/-- Cutting finds what was put there, in every format. -/
theorem ofWord_toWord (insn : Instruction) : ofWord insn.format insn.toWord = insn := by
  -- Each piece is found inside one of the neighbours; those of an immediate are joined again.
  cases insn with
  | r opcode rd funct3 rs1 rs2 funct7 =>
      simp (disch := decide) only [format, toWord, ofWord, Word.opcode, Word.rd, Word.funct3,
        Word.rs1, Word.rs2, Word.funct7, Word.bits_eq_extractLsb',
        BitVec.extractLsb'_append_eq_of_le, BitVec.extractLsb'_append_eq_of_add_le, Nat.reduceSub,
        BitVec.extractLsb'_eq_self]
  | i opcode rd funct3 rs1 imm =>
      simp (disch := decide) only [format, toWord, ofWord, Word.opcode, Word.rd, Word.funct3,
        Word.rs1, Word.bits_eq_extractLsb', BitVec.extractLsb'_append_eq_of_le,
        BitVec.extractLsb'_append_eq_of_add_le, Nat.reduceSub, BitVec.extractLsb'_eq_self]
  | s opcode funct3 rs1 rs2 imm =>
      simp (disch := decide) only [format, toWord, ofWord, Word.opcode, Word.funct3, Word.rs1,
        Word.rs2, Word.bits_eq_extractLsb', BitVec.extractLsb'_append_eq_of_le,
        BitVec.extractLsb'_append_eq_of_add_le, Nat.reduceSub, BitVec.extractLsb'_eq_self,
        BitVec.extractLsb'_append_extractLsb'_eq_extractLsb']
  | b opcode funct3 rs1 rs2 half =>
      simp (disch := decide) only [format, toWord, ofWord, Word.opcode, Word.funct3, Word.rs1,
        Word.rs2, Word.bits_eq_extractLsb', BitVec.extractLsb'_append_eq_of_le,
        BitVec.extractLsb'_append_eq_of_add_le, Nat.reduceSub, BitVec.extractLsb'_eq_self,
        BitVec.extractLsb'_append_extractLsb'_eq_extractLsb']
  | u opcode rd upper =>
      simp (disch := decide) only [format, toWord, ofWord, Word.opcode, Word.rd,
        Word.bits_eq_extractLsb', BitVec.extractLsb'_append_eq_of_le,
        BitVec.extractLsb'_append_eq_of_add_le, Nat.reduceSub, BitVec.extractLsb'_eq_self]
  | j opcode rd half =>
      simp (disch := decide) only [format, toWord, ofWord, Word.opcode, Word.rd,
        Word.bits_eq_extractLsb', BitVec.extractLsb'_append_eq_of_le,
        BitVec.extractLsb'_append_eq_of_add_le, Nat.reduceSub, BitVec.extractLsb'_eq_self,
        BitVec.extractLsb'_append_extractLsb'_eq_extractLsb']

/-- A word is told by its fields under any one format. -/
theorem ofWord_inj {f : Format} {w w' : Word} (h : ofWord f w = ofWord f w') : w = w' := by
  rw [← toWord_ofWord f w, h, toWord_ofWord]

end Instruction

/-! ### Distances -/

theorem Word.ofSigned_inj {n : Nat} (hn : n ≤ 32) {x y : BitVec n}
    (h : Word.ofSigned x = Word.ofSigned y) : x = y := by
  rw [Word.ofSigned_eq_signExtend, Word.ofSigned_eq_signExtend] at h
  have hvalue := congrArg BitVec.toInt h
  rw [BitVec.toInt_signExtend_of_le hn, BitVec.toInt_signExtend_of_le hn] at hvalue
  exact BitVec.eq_of_toInt_eq hvalue

theorem append_zero_inj {n : Nat} {x y : BitVec n} (h : x ++ 0#1 = y ++ 0#1) : x = y := by
  rw [← BitVec.extractLsb'_append_eq_left (a := x) (b := 0#1), h,
    BitVec.extractLsb'_append_eq_left]

theorem branchOffset_inj {half half' : BitVec 12} (h : branchOffset half = branchOffset half') :
    half = half' :=
  append_zero_inj (Word.ofSigned_inj (by decide) h)

theorem jumpOffset_inj {half half' : BitVec 20} (h : jumpOffset half = jumpOffset half') :
    half = half' :=
  append_zero_inj (Word.ofSigned_inj (by decide) h)

end HomeComputer
