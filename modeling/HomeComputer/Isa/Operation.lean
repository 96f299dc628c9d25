/-
Operations.

An `Operation` is what an instruction does once its fields are set aside: the row of
the manual that the word matches.  Families that share a shape are one constructor
with a parameter, and each parameter ranges over exactly the members that exist, so
there is no operation without an encoding.
-/
import HomeComputer.Isa.Format
import HomeComputer.Memory.Bus

namespace HomeComputer

/-- When a branch is taken. -/
inductive Condition
  | eq | ne | lt | ge | ltu | geu
  deriving DecidableEq, Repr

/-- What a load fetches: signed or zero-extended where it is narrow. -/
inductive LoadKind
  | b | h | w | bu | hu
  deriving DecidableEq, Repr

/-- The arithmetic that registers and immediates share. -/
inductive Alu
  | add | sll | slt | sltu | xor | srl | sra | or | and
  deriving DecidableEq, Repr

/-- Multiplication and division. -/
inductive MulDiv
  | mul | mulh | mulhsu | mulhu | div | divu | rem | remu
  deriving DecidableEq, Repr

/-- What is done to a control register. -/
inductive CsrAction
  | write | set | clear
  deriving DecidableEq, Repr

/-- What an instruction does. -/
inductive Operation
  | lui | auipc | jal | jalr
  | branch (c : Condition)
  | load (k : LoadKind)
  | store (w : Width)
  | aluImm (o : Alu)
  | alu (o : Alu)
  /-- Subtraction, which has no immediate form. -/
  | sub
  | mulDiv (o : MulDiv)
  | fence | fenceI | ecall | ebreak | mret
  /-- Access to a control register, with a register or a five-bit number as operand. -/
  | csr (a : CsrAction) (immediate : Bool)
  deriving DecidableEq, Repr

/-! ### Families, names and formats -/

namespace LoadKind

def width : LoadKind → Width
  | b | bu => .byte
  | h | hu => .half
  | w => .word

/-- The register value of what was fetched. -/
def extend : LoadKind → Word → Word
  | b, v => (v.setWidth 8).signExtend 32
  | h, v => (v.setWidth 16).signExtend 32
  | _, v => v

end LoadKind

namespace Condition

def all : List Condition := [eq, ne, lt, ge, ltu, geu]

def name : Condition → String
  | eq => "eq" | ne => "ne" | lt => "lt" | ge => "ge" | ltu => "ltu" | geu => "geu"

def holds : Condition → Word → Word → Bool
  | eq, a, b => a == b
  | ne, a, b => a != b
  | lt, a, b => a.slt b
  | ge, a, b => !a.slt b
  | ltu, a, b => a.ult b
  | geu, a, b => !a.ult b

end Condition

namespace LoadKind

def all : List LoadKind := [b, h, w, bu, hu]

def name : LoadKind → String
  | b => "b" | h => "h" | w => "w" | bu => "bu" | hu => "hu"

end LoadKind

namespace Alu

def all : List Alu := [add, sll, slt, sltu, xor, srl, sra, or, and]

def name : Alu → String
  | add => "add" | sll => "sll" | slt => "slt" | sltu => "sltu" | xor => "xor"
  | srl => "srl" | sra => "sra" | or => "or" | and => "and"

def immediateName : Alu → String
  | sltu => "sltiu"
  | o => o.name ++ "i"

/-- Whether the second operand is an amount to shift by. -/
def isShift : Alu → Bool
  | sll | srl | sra => true
  | _ => false

/-- The result on two operands; shifts use the low five bits of the second. -/
def apply : Alu → Word → Word → Word
  | add, a, b => a + b
  | sll, a, b => a <<< (b.toNat % 32)
  | slt, a, b => if a.slt b then 1#32 else 0#32
  | sltu, a, b => if a.ult b then 1#32 else 0#32
  | xor, a, b => a ^^^ b
  | srl, a, b => a >>> (b.toNat % 32)
  | sra, a, b => a.sshiftRight (b.toNat % 32)
  | or, a, b => a ||| b
  | and, a, b => a &&& b

end Alu

namespace MulDiv

/-- The whole family, in the order of its function codes. -/
def all : List MulDiv := [mul, mulh, mulhsu, mulhu, div, divu, rem, remu]

def name : MulDiv → String
  | mul => "mul" | mulh => "mulh" | mulhsu => "mulhsu" | mulhu => "mulhu"
  | div => "div" | divu => "divu" | rem => "rem" | remu => "remu"

end MulDiv

namespace CsrAction

def all : List CsrAction := [write, set, clear]

def name : CsrAction → String
  | write => "csrrw" | set => "csrrs" | clear => "csrrc"

/-- What becomes of the old content, given the operand. -/
def combine : CsrAction → Word → Word → Word
  | write, _, operand => operand
  | set, old, operand => old ||| operand
  | clear, old, operand => old &&& ~~~operand

end CsrAction

namespace Operation

def all : List Operation :=
  [lui, auipc, jal, jalr, sub, fence, fenceI, ecall, ebreak, mret] ++
    Condition.all.map branch ++ LoadKind.all.map load ++ [Width.byte, .half, .word].map store ++
    Alu.all.map aluImm ++ Alu.all.map alu ++ MulDiv.all.map mulDiv ++
    CsrAction.all.flatMap fun a => [csr a false, csr a true]

def mnemonic : Operation → String
  | lui => "lui"
  | auipc => "auipc"
  | jal => "jal"
  | jalr => "jalr"
  | branch c => "b" ++ c.name
  | load k => "l" ++ k.name
  | store .byte => "sb"
  | store .half => "sh"
  | store .word => "sw"
  | aluImm o => o.immediateName
  | alu o => o.name
  | sub => "sub"
  | mulDiv o => o.name
  | fence => "fence"
  | fenceI => "fence.i"
  | ecall => "ecall"
  | ebreak => "ebreak"
  | mret => "mret"
  | csr a immediate => if immediate then a.name ++ "i" else a.name

def ofMnemonic? (s : String) : Option Operation := all.find? (·.mnemonic == s)

/-- The format that operands of the operation come in. -/
def format : Operation → Format
  | lui | auipc => .U
  | jal => .J
  | branch _ => .B
  | store _ => .S
  | alu _ | sub | mulDiv _ => .R
  | jalr | load _ | aluImm _ | fence | fenceI | ecall | ebreak | mret | csr _ _ => .I

theorem mem_all (op : Operation) : op ∈ all := by
  cases op with
  | branch c => cases c <;> decide
  | load k => cases k <;> decide
  | store w => cases w <;> decide
  | aluImm o => cases o <;> decide
  | alu o => cases o <;> decide
  | mulDiv o => cases o <;> decide
  | csr a i => cases a <;> cases i <;> decide
  | _ => decide

/-- No two operations share a name. -/
theorem nodup_mnemonic : (all.map mnemonic).Nodup := by decide +kernel

end Operation

end HomeComputer
