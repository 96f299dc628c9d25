/-
Instruction sets and decoding.

An `Extension` is one of the instruction sets a hart may be fitted with, and
`operation?` is its chapter of the manual: which words it claims and what they do.
A hart asks its extensions in turn; the first that claims the word decides.

A claimed word is cut by the format of its operation, so decoding yields an operation
together with fields that fit it.
-/
import HomeComputer.Isa.Operation

namespace HomeComputer

/-- An instruction set. -/
inductive Extension
  | i
  | m
  /-- Control registers, and the return from a trap. -/
  | zicsr
  | zifencei
  deriving DecidableEq, Repr

/-- A decoded word: what it does and the fields it does it with. -/
structure Decoded where
  operation : Operation
  instruction : Instruction
  deriving DecidableEq, Repr

/-! ### Words with a meaning of their own -/

def ecallWord : Word := 0x00000073#32

def ebreakWord : Word := 0x00100073#32

def mretWord : Word := 0x30200073#32

namespace Extension

/-! ### Function codes -/

def condition? : BitVec 3 → Option Condition
  | 0b000 => some .eq
  | 0b001 => some .ne
  | 0b100 => some .lt
  | 0b101 => some .ge
  | 0b110 => some .ltu
  | 0b111 => some .geu
  | _ => none

def loadKind? : BitVec 3 → Option LoadKind
  | 0b000 => some .b
  | 0b001 => some .h
  | 0b010 => some .w
  | 0b100 => some .bu
  | 0b101 => some .hu
  | _ => none

def storeWidth? : BitVec 3 → Option Width
  | 0b000 => some .byte
  | 0b001 => some .half
  | 0b010 => some .word
  | _ => none

/-- Immediate arithmetic by its function codes; only shifts look at the larger one. -/
def aluImm? (funct3 : BitVec 3) (funct7 : BitVec 7) : Option Alu :=
  match funct3 with
  | 0b000 => some .add
  | 0b010 => some .slt
  | 0b011 => some .sltu
  | 0b100 => some .xor
  | 0b110 => some .or
  | 0b111 => some .and
  | 0b001 => if funct7 = 0#7 then some .sll else none
  | _ => if funct7 = 0#7 then some .srl else if funct7 = 0x20#7 then some .sra else none

def register? (funct3 : BitVec 3) (funct7 : BitVec 7) : Option Operation :=
  if funct7 = 0#7 then
    match funct3 with
    | 0b000 => some (.alu .add)
    | 0b001 => some (.alu .sll)
    | 0b010 => some (.alu .slt)
    | 0b011 => some (.alu .sltu)
    | 0b100 => some (.alu .xor)
    | 0b101 => some (.alu .srl)
    | 0b110 => some (.alu .or)
    | _ => some (.alu .and)
  else if funct7 = 0x20#7 then
    match funct3 with
    | 0b000 => some .sub
    | 0b101 => some (.alu .sra)
    | _ => none
  else
    none

def mulDiv (funct3 : BitVec 3) : MulDiv :=
  match funct3 with
  | 0b000 => .mul
  | 0b001 => .mulh
  | 0b010 => .mulhsu
  | 0b011 => .mulhu
  | 0b100 => .div
  | 0b101 => .divu
  | 0b110 => .rem
  | _ => .remu

def csr? (funct3 : BitVec 3) : Option Operation :=
  match funct3 with
  | 0b001 => some (.csr .write false)
  | 0b010 => some (.csr .set false)
  | 0b011 => some (.csr .clear false)
  | 0b101 => some (.csr .write true)
  | 0b110 => some (.csr .set true)
  | 0b111 => some (.csr .clear true)
  | _ => none

/-! ### The sets -/

/-- What a word does in the base set. -/
def base? (w : Word) : Option Operation :=
  match w.opcode with
  | 0x37 => some .lui
  | 0x17 => some .auipc
  | 0x6f => some .jal
  | 0x67 => if w.funct3 = 0#3 then some .jalr else none
  | 0x63 => (condition? w.funct3).map .branch
  | 0x03 => (loadKind? w.funct3).map .load
  | 0x23 => (storeWidth? w.funct3).map .store
  | 0x13 => (aluImm? w.funct3 w.funct7).map .aluImm
  | 0x33 => register? w.funct3 w.funct7
  | 0x0f => if w.funct3 = 0#3 then some .fence else none
  | 0x73 => if w = ecallWord then some .ecall else if w = ebreakWord then some .ebreak else none
  | _ => none

/-- What a word does in a set, if the set claims it. -/
def operation? : Extension → Word → Option Operation
  | i, w => base? w
  | m, w => if w.opcode = 0x33#7 ∧ w.funct7 = 1#7 then some (.mulDiv (mulDiv w.funct3)) else none
  | zicsr, w =>
      if w.opcode = 0x73#7 then
        if w = mretWord then some .mret else csr? w.funct3
      else none
  | zifencei, w => if w.opcode = 0x0f#7 ∧ w.funct3 = 1#3 then some .fenceI else none

/-- The decoded word, if the set claims it. -/
def decode? (e : Extension) (w : Word) : Option Decoded :=
  (e.operation? w).map fun op => ⟨op, Instruction.ofWord op.format w⟩

/-! ### Lists of sets -/

/-- Every set, in the order a full hart asks them. -/
def full : List Extension := [i, m, zicsr, zifencei]

def name : Extension → String
  | i => "i" | m => "m" | zicsr => "zicsr" | zifencei => "zifencei"

/-- The set with the given name, in letters of either case. -/
def ofName? (s : String) : Option Extension :=
  full.find? (·.name == s.map Char.toLower)

/-- The decoding by the first set that claims the word. -/
def decodeBy (isa : List Extension) (w : Word) : Option Decoded :=
  isa.findSome? (·.decode? w)

end Extension

end HomeComputer
