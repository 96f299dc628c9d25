/-
How instructions are written.

This is the listing once more, as the manual would have it: a name for each operation, names of
registers, and the operands of each operation in their order, from the bits of a word and from
integers.  Nothing of the disassembler is used, neither its tables nor how it spells an operand.
A number is in decimal if it is an immediate with a sign or an amount, and in hexadecimal after
`0x` if it stands for bits or for an address.
-/
import HomeComputer.Isa.Operation
import HomeComputer.Proofs.Isa.Manual

namespace HomeComputer

namespace Manual

/-! ### Names -/

def mnemonic : Operation → String
  | .lui => "lui"
  | .auipc => "auipc"
  | .jal => "jal"
  | .jalr => "jalr"
  | .branch .eq => "beq"
  | .branch .ne => "bne"
  | .branch .lt => "blt"
  | .branch .ge => "bge"
  | .branch .ltu => "bltu"
  | .branch .geu => "bgeu"
  | .load .b => "lb"
  | .load .h => "lh"
  | .load .w => "lw"
  | .load .bu => "lbu"
  | .load .hu => "lhu"
  | .store .byte => "sb"
  | .store .half => "sh"
  | .store .word => "sw"
  | .aluImm .add => "addi"
  | .aluImm .slt => "slti"
  | .aluImm .sltu => "sltiu"
  | .aluImm .xor => "xori"
  | .aluImm .or => "ori"
  | .aluImm .and => "andi"
  | .aluImm .sll => "slli"
  | .aluImm .srl => "srli"
  | .aluImm .sra => "srai"
  | .alu .add => "add"
  | .sub => "sub"
  | .alu .sll => "sll"
  | .alu .slt => "slt"
  | .alu .sltu => "sltu"
  | .alu .xor => "xor"
  | .alu .srl => "srl"
  | .alu .sra => "sra"
  | .alu .or => "or"
  | .alu .and => "and"
  | .mulDiv .mul => "mul"
  | .mulDiv .mulh => "mulh"
  | .mulDiv .mulhsu => "mulhsu"
  | .mulDiv .mulhu => "mulhu"
  | .mulDiv .div => "div"
  | .mulDiv .divu => "divu"
  | .mulDiv .rem => "rem"
  | .mulDiv .remu => "remu"
  | .fence => "fence"
  | .fenceI => "fence.i"
  | .ecall => "ecall"
  | .ebreak => "ebreak"
  | .mret => "mret"
  | .csr .write false => "csrrw"
  | .csr .set false => "csrrs"
  | .csr .clear false => "csrrc"
  | .csr .write true => "csrrwi"
  | .csr .set true => "csrrsi"
  | .csr .clear true => "csrrci"

/-- The registers by what they are for, in the order of their numbers. -/
def registerNames : List String :=
  ["zero", "ra", "sp", "gp", "tp", "t0", "t1", "t2", "s0", "s1", "a0", "a1", "a2", "a3", "a4",
    "a5", "a6", "a7", "s2", "s3", "s4", "s5", "s6", "s7", "s8", "s9", "s10", "s11", "t3", "t4",
    "t5", "t6"]

def register (n : Nat) : String := registerNames.getD n ""

/-- The control registers that there are. -/
def controlNames : List (Nat × String) :=
  [(0x300, "mstatus"), (0x301, "misa"), (0x304, "mie"), (0x305, "mtvec"), (0x340, "mscratch"),
    (0x341, "mepc"), (0x342, "mcause"), (0x343, "mtval"), (0x344, "mip"), (0xb00, "mcycle"),
    (0xb02, "minstret"), (0xb80, "mcycleh"), (0xb82, "minstreth"), (0xc00, "cycle"),
    (0xc02, "instret"), (0xc80, "cycleh"), (0xc82, "instreth"), (0xf14, "mhartid")]

/-! ### Operands -/

def hexadecimal (n : Nat) : String := "0x" ++ String.ofList (Nat.toDigits 16 n)

/-- A control register, by its number if it has no name. -/
def control (n : Nat) : String := (controlNames.lookup n).getD (hexadecimal n)

/-- The place so far from where a register points. -/
def place (distance : Int) (base : Nat) : String :=
  toString distance ++ "(" ++ register base ++ ")"

/-- The address that a word at `pc` leads to, if it is a jump by a distance or a branch. -/
def target? (pc : Nat) (w : Word) : Operation → Option Nat
  | .jal => some (unsigned (pc + immJ w))
  | .branch _ => some (unsigned (pc + immB w))
  | _ => none

def operands (pc : Nat) (w : Word) : Operation → List String
  | .lui | .auipc => [register (rd w), hexadecimal (field w 12 20)]
  | .jal => [register (rd w), hexadecimal (unsigned (pc + immJ w))]
  | .branch _ => [register (rs1 w), register (rs2 w), hexadecimal (unsigned (pc + immB w))]
  | .jalr | .load _ => [register (rd w), place (immI w) (rs1 w)]
  | .store _ => [register (rs2 w), place (immS w) (rs1 w)]
  -- The amount of a shift.
  | .aluImm .sll | .aluImm .srl | .aluImm .sra =>
      [register (rd w), register (rs1 w), toString (field w 20 5)]
  | .aluImm _ => [register (rd w), register (rs1 w), toString (immI w)]
  | .alu _ | .sub | .mulDiv _ => [register (rd w), register (rs1 w), register (rs2 w)]
  | .csr _ false => [register (rd w), control (field w 20 12), register (rs1 w)]
  -- The field of a source has the operand itself.
  | .csr _ true => [register (rd w), control (field w 20 12), toString (rs1 w)]
  | .fence | .fenceI | .ecall | .ebreak | .mret => []

/-! ### Lines -/

/-- A name and its operands, which begin in the ninth column. -/
def line (name : String) : List String → String
  | [] => name
  | operands => name ++ String.ofList (List.replicate (8 - name.length) ' ') ++
      ", ".intercalate operands

end Manual

end HomeComputer
