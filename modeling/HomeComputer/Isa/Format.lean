/-
The six instruction formats.

A word is cut into fields in one of six ways.  `Instruction.ofWord` cuts and
`Instruction.toWord` puts the fields back at the same places; the fields carry
their widths in their types, so every value of `Instruction` is some word's and
nothing about a word is lost.

Immediates are kept as the bits the word holds.  Branch and jump distances are
counted in half words there, so the always-zero bit of a distance is not stored:
`immediate?` and `offset` put it back.
-/
import HomeComputer.Word

namespace HomeComputer

/-- A register number in an instruction. -/
abbrev Reg := BitVec 5

/-- How a word is cut into fields. -/
inductive Format
  | R | I | S | B | U | J
  deriving DecidableEq, Repr

namespace Format

def all : List Format := [R, I, S, B, U, J]

def letter : Format → String
  | R => "R" | I => "I" | S => "S" | B => "B" | U => "U" | J => "J"

def ofLetter? (s : String) : Option Format := all.find? (·.letter == s)

end Format

/-! ### Places that most formats share -/

namespace Word

def opcode (w : Word) : BitVec 7 := w.bits 0 7

def rd (w : Word) : Reg := w.bits 7 5

def funct3 (w : Word) : BitVec 3 := w.bits 12 3

def rs1 (w : Word) : Reg := w.bits 15 5

def rs2 (w : Word) : Reg := w.bits 20 5

def funct7 (w : Word) : BitVec 7 := w.bits 25 7

end Word

/-- The fields of a word under one of the formats. -/
inductive Instruction
  | r (opcode : BitVec 7) (rd : Reg) (funct3 : BitVec 3) (rs1 rs2 : Reg) (funct7 : BitVec 7)
  /-- Two registers and twelve immediate bits. -/
  | i (opcode : BitVec 7) (rd : Reg) (funct3 : BitVec 3) (rs1 : Reg) (imm : BitVec 12)
  /-- Two sources and twelve immediate bits in two pieces. -/
  | s (opcode : BitVec 7) (funct3 : BitVec 3) (rs1 rs2 : Reg) (imm : BitVec 12)
  /-- Two sources and a distance of twelve bits, in half words. -/
  | b (opcode : BitVec 7) (funct3 : BitVec 3) (rs1 rs2 : Reg) (half : BitVec 12)
  /-- A destination and the upper twenty bits of a word. -/
  | u (opcode : BitVec 7) (rd : Reg) (upper : BitVec 20)
  /-- A destination and a distance of twenty bits, in half words. -/
  | j (opcode : BitVec 7) (rd : Reg) (half : BitVec 20)
  deriving DecidableEq, Repr

namespace Instruction

/-- The fields of `w` under format `f`. -/
def ofWord (f : Format) (w : Word) : Instruction :=
  match f with
  | .R => .r w.opcode w.rd w.funct3 w.rs1 w.rs2 w.funct7
  | .I => .i w.opcode w.rd w.funct3 w.rs1 (w.bits 20 12)
  | .S => .s w.opcode w.funct3 w.rs1 w.rs2 (w.bits 25 7 ++ w.bits 7 5)
  | .B => .b w.opcode w.funct3 w.rs1 w.rs2
      (w.bits 31 1 ++ w.bits 7 1 ++ w.bits 25 6 ++ w.bits 8 4)
  | .U => .u w.opcode w.rd (w.bits 12 20)
  | .J => .j w.opcode w.rd
      (w.bits 31 1 ++ w.bits 12 8 ++ w.bits 20 1 ++ w.bits 21 10)

def toWord : Instruction → Word
  | .r opcode rd funct3 rs1 rs2 funct7 => funct7 ++ rs2 ++ rs1 ++ funct3 ++ rd ++ opcode
  | .i opcode rd funct3 rs1 imm => imm ++ rs1 ++ funct3 ++ rd ++ opcode
  | .s opcode funct3 rs1 rs2 imm =>
      imm.extractLsb' 5 7 ++ rs2 ++ rs1 ++ funct3 ++ imm.extractLsb' 0 5 ++ opcode
  | .b opcode funct3 rs1 rs2 half =>
      half.extractLsb' 11 1 ++ half.extractLsb' 4 6 ++ rs2 ++ rs1 ++ funct3 ++
        half.extractLsb' 0 4 ++ half.extractLsb' 10 1 ++ opcode
  | .u opcode rd upper => upper ++ rd ++ opcode
  | .j opcode rd half =>
      half.extractLsb' 19 1 ++ half.extractLsb' 0 10 ++ half.extractLsb' 10 1 ++
        half.extractLsb' 11 8 ++ rd ++ opcode

def format : Instruction → Format
  | .r .. => .R | .i .. => .I | .s .. => .S | .b .. => .B | .u .. => .U | .j .. => .J

@[simp] theorem format_ofWord (f : Format) (w : Word) : (ofWord f w).format = f := by
  cases f <;> rfl

/-- The immediate at its place in a word, with zeros above its sign bit. -/
def immediate? : Instruction → Option Word
  | .r .. => none
  | .i _ _ _ _ imm => some (imm.setWidth 32)
  | .s _ _ _ _ imm => some (imm.setWidth 32)
  | .b _ _ _ _ half => some ((half ++ 0#1).setWidth 32)
  | .u _ _ upper => some (upper ++ 0#12)
  | .j _ _ half => some ((half ++ 0#1).setWidth 32)

end Instruction

/-- The signed value of twelve immediate bits. -/
def signedImmediate (imm : BitVec 12) : Word := Word.ofSigned imm

/-- The signed distance of a branch. -/
def branchOffset (half : BitVec 12) : Word := Word.ofSigned (half ++ 0#1)

/-- The signed distance of a jump. -/
def jumpOffset (half : BitVec 20) : Word := Word.ofSigned (half ++ 0#1)

/-- The word whose upper twenty bits are given. -/
def upperImmediate (upper : BitVec 20) : Word := upper ++ 0#12

end HomeComputer
