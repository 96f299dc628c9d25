/-
Assembly text.

`Assembly.ofWord` says how a word reads in assembly: a mnemonic with its operands,
or plain data where the word is no instruction.  `text` writes it down.  The two are
kept apart so that what is shown can be reasoned about before it is spelled.

A word is read here on its own, from its function codes to the name of what it does,
without asking any instruction set.  That the sets claim the same words and do with them
what the names say is a theorem, not part of the definition.

Jump and branch targets are shown as the addresses they lead to, so the address of
the instruction has to be known.
-/
import HomeComputer.Isa.Extension
import HomeComputer.Processor.Csr
import HomeComputer.Processor.Registers
import HomeComputer.Text

namespace HomeComputer

/-- An operand as it is shown. -/
inductive Operand
  | register (r : Reg)
  | signed (v : BitVec 12)
  /-- A small number without sign: a shift amount or an immediate for a control register. -/
  | small (v : BitVec 5)
  /-- The upper bits of a word. -/
  | upper (v : BitVec 20)
  | target (a : Word)
  /-- A place in memory: a distance from a register. -/
  | place (v : BitVec 12) (base : Reg)
  /-- A control register, by name where it has one. -/
  | control (n : CsrNumber)
  deriving DecidableEq, Repr

namespace Operand

def text : Operand → String
  | register r => Registers.name r
  | signed v => toString v.toInt
  | small v => toString v.toNat
  | upper v => Text.address v.toNat
  | target a => Text.address a.toNat
  | place v base => toString v.toInt ++ "(" ++ Registers.name base ++ ")"
  | control n =>
      match Csr.ofNumber? n with
      | some c => c.name
      | none => Text.address n.toNat

end Operand

/-- A word as it reads in assembly. -/
inductive Assembly
  | line (mnemonic : String) (operands : List Operand)
  | data (w : Word)
  deriving DecidableEq, Repr

namespace Assembly

/-! ### Names by function codes -/

def branchName? : BitVec 3 → Option String
  | 0b000 => some "beq"
  | 0b001 => some "bne"
  | 0b100 => some "blt"
  | 0b101 => some "bge"
  | 0b110 => some "bltu"
  | 0b111 => some "bgeu"
  | _ => none

def loadName? : BitVec 3 → Option String
  | 0b000 => some "lb"
  | 0b001 => some "lh"
  | 0b010 => some "lw"
  | 0b100 => some "lbu"
  | 0b101 => some "lhu"
  | _ => none

def storeName? : BitVec 3 → Option String
  | 0b000 => some "sb"
  | 0b001 => some "sh"
  | 0b010 => some "sw"
  | _ => none

/-- Immediate arithmetic and how its immediate is shown: a shift shows its amount. -/
def immediateName? (funct3 : BitVec 3) (funct7 : BitVec 7) (imm : BitVec 12) :
    Option (String × Operand) :=
  let amount : Operand := .small (imm.setWidth 5)
  match funct3, funct7 with
  | 0b000, _ => some ("addi", .signed imm)
  | 0b010, _ => some ("slti", .signed imm)
  | 0b011, _ => some ("sltiu", .signed imm)
  | 0b100, _ => some ("xori", .signed imm)
  | 0b110, _ => some ("ori", .signed imm)
  | 0b111, _ => some ("andi", .signed imm)
  | 0b001, 0b0000000 => some ("slli", amount)
  | 0b101, 0b0000000 => some ("srli", amount)
  | 0b101, 0b0100000 => some ("srai", amount)
  | _, _ => none

/-- Arithmetic on two registers, with multiplication and division. -/
def registerName? (funct7 : BitVec 7) (funct3 : BitVec 3) : Option String :=
  match funct7, funct3 with
  | 0b0000000, 0b000 => some "add"
  | 0b0100000, 0b000 => some "sub"
  | 0b0000000, 0b001 => some "sll"
  | 0b0000000, 0b010 => some "slt"
  | 0b0000000, 0b011 => some "sltu"
  | 0b0000000, 0b100 => some "xor"
  | 0b0000000, 0b101 => some "srl"
  | 0b0100000, 0b101 => some "sra"
  | 0b0000000, 0b110 => some "or"
  | 0b0000000, 0b111 => some "and"
  | 0b0000001, 0b000 => some "mul"
  | 0b0000001, 0b001 => some "mulh"
  | 0b0000001, 0b010 => some "mulhsu"
  | 0b0000001, 0b011 => some "mulhu"
  | 0b0000001, 0b100 => some "div"
  | 0b0000001, 0b101 => some "divu"
  | 0b0000001, 0b110 => some "rem"
  | 0b0000001, _ => some "remu"
  | _, _ => none

def controlName? : BitVec 3 → Option String
  | 0b001 => some "csrrw"
  | 0b010 => some "csrrs"
  | 0b011 => some "csrrc"
  | 0b101 => some "csrrwi"
  | 0b110 => some "csrrsi"
  | 0b111 => some "csrrci"
  | _ => none

/-! ### Lines by the shape of their operands -/

/-- A destination and the upper bits of a word. -/
def upper (mnemonic : String) (w : Word) : Assembly :=
  match Instruction.ofWord .U w with
  | .u _ rd upper => line mnemonic [.register rd, .upper upper]
  | _ => data w

/-- A destination and the address that a jump leads to. -/
def jump (mnemonic : String) (w pc : Word) : Assembly :=
  match Instruction.ofWord .J w with
  | .j _ rd half => line mnemonic [.register rd, .target (pc + jumpOffset half)]
  | _ => data w

/-- A destination and a place. -/
def fromPlace (mnemonic : String) (w : Word) : Assembly :=
  match Instruction.ofWord .I w with
  | .i _ rd _ rs1 imm => line mnemonic [.register rd, .place imm rs1]
  | _ => data w

/-- Two sources and the address that a branch leads to. -/
def branch (mnemonic : String) (w pc : Word) : Assembly :=
  match Instruction.ofWord .B w with
  | .b _ _ rs1 rs2 half =>
      line mnemonic [.register rs1, .register rs2, .target (pc + branchOffset half)]
  | _ => data w

/-- A source and the place it goes to. -/
def toPlace (mnemonic : String) (w : Word) : Assembly :=
  match Instruction.ofWord .S w with
  | .s _ _ rs1 rs2 imm => line mnemonic [.register rs2, .place imm rs1]
  | _ => data w

/-- A destination, a source and an immediate. -/
def arithmetic (w : Word) : Assembly :=
  match Instruction.ofWord .I w with
  | .i _ rd _ rs1 imm =>
      match immediateName? w.funct3 w.funct7 imm with
      | some (mnemonic, operand) => line mnemonic [.register rd, .register rs1, operand]
      | none => data w
  | _ => data w

/-- A destination and two sources. -/
def registers (mnemonic : String) (w : Word) : Assembly :=
  match Instruction.ofWord .R w with
  | .r _ rd _ rs1 rs2 _ => line mnemonic [.register rd, .register rs1, .register rs2]
  | _ => data w

/-- A destination, a control register and a source; a code with its upper bit set has the
number in the source's place as the operand itself. -/
def control (mnemonic : String) (w : Word) : Assembly :=
  match Instruction.ofWord .I w with
  | .i _ rd _ rs1 imm =>
      line mnemonic [.register rd, .control (imm.setWidth 16),
        if w.funct3.getLsbD 2 then .small rs1 else .register rs1]
  | _ => data w

/-! ### Words -/

/-- A word with the operation code that control registers share with what stops a program. -/
def system (w : Word) : Assembly :=
  if w = ecallWord then line "ecall" []
  else if w = ebreakWord then line "ebreak" []
  else if w = mretWord then line "mret" []
  else
    match controlName? w.funct3 with
    | some mnemonic => control mnemonic w
    | none => data w

/-- How a word at address `pc` reads. -/
def ofWord (w pc : Word) : Assembly :=
  match w.opcode with
  | 0x37 => upper "lui" w
  | 0x17 => upper "auipc" w
  | 0x6f => jump "jal" w pc
  | 0x67 => if w.funct3 = 0#3 then fromPlace "jalr" w else data w
  | 0x63 =>
      match branchName? w.funct3 with
      | some mnemonic => branch mnemonic w pc
      | none => data w
  | 0x03 =>
      match loadName? w.funct3 with
      | some mnemonic => fromPlace mnemonic w
      | none => data w
  | 0x23 =>
      match storeName? w.funct3 with
      | some mnemonic => toPlace mnemonic w
      | none => data w
  | 0x13 => arithmetic w
  | 0x33 =>
      match registerName? w.funct7 w.funct3 with
      | some mnemonic => registers mnemonic w
      | none => data w
  | 0x0f =>
      match w.funct3 with
      | 0b000 => line "fence" []
      | 0b001 => line "fence.i" []
      | _ => data w
  | 0x73 => system w
  | _ => data w

/-- A mnemonic in a column of eight and what stands after it, if anything does. -/
def column (mnemonic operands : String) : String :=
  if operands.isEmpty then mnemonic else Text.padRight 8 mnemonic ++ operands

def text : Assembly → String
  | line mnemonic operands => column mnemonic (String.intercalate ", " (operands.map Operand.text))
  | data w => ".word " ++ Text.fullWord w.toNat

end Assembly

/-- The assembly text of a word at address `pc`. -/
def disassemble (w pc : Word) : String := (Assembly.ofWord w pc).text

end HomeComputer
