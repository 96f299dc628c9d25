/-
The base instructions over integers.

This is the manual's table of the integer instructions, the loads and the stores, written
out once more from the bits of a word and from integers.  Nothing of the library's decoding
or arithmetic is used: a field is a quotient and a remainder, an immediate is the sum of its
pieces at their weights with the sign bit counted negative, and a result is an integer that
the register receives modulo 2 ^ 32.  Agreeing with this table is what it means to be right.

Registers are given by their signed values.  `unsigned` turns a signed value into the
unsigned value of the same register, and a shift uses the low five bits of its amount.
-/
import HomeComputer.Memory.Bus
import Mathlib.Algebra.Ring.Int.Defs
import Mathlib.Algebra.Ring.Nat

namespace HomeComputer

namespace Manual

/-! ### Fields and immediates -/

/-- The number in the `len` bits of a word from bit `start` on. -/
def field (w : Word) (start len : Nat) : Nat := w.toNat / 2 ^ start % 2 ^ len

def opcode (w : Word) : Nat := field w 0 7
def rd (w : Word) : Nat := field w 7 5
def funct3 (w : Word) : Nat := field w 12 3
def rs1 (w : Word) : Nat := field w 15 5
def rs2 (w : Word) : Nat := field w 20 5
def funct7 (w : Word) : Nat := field w 25 7

def immI (w : Word) : Int := field w 20 11 - 2 ^ 11 * field w 31 1

def immS (w : Word) : Int := field w 7 5 + 2 ^ 5 * field w 25 6 - 2 ^ 11 * field w 31 1

def immB (w : Word) : Int :=
  2 * field w 8 4 + 2 ^ 5 * field w 25 6 + 2 ^ 11 * field w 7 1 - 2 ^ 12 * field w 31 1

def immU (w : Word) : Int := 2 ^ 12 * field w 12 19 - 2 ^ 31 * field w 31 1

def immJ (w : Word) : Int :=
  2 * field w 21 10 + 2 ^ 11 * field w 20 1 + 2 ^ 12 * field w 12 8 - 2 ^ 20 * field w 31 1

/-! ### Arithmetic -/

/-- The unsigned value of a register with the signed value `a`. -/
def unsigned (a : Int) : Nat := (a % 2 ^ 32).toNat

/-- The amount to shift by: the low five bits. -/
def amount (b : Int) : Nat := unsigned b % 32

def sll (a b : Int) : Int := a * 2 ^ amount b
def slt (a b : Int) : Int := if a < b then 1 else 0
def sltu (a b : Int) : Int := if unsigned a < unsigned b then 1 else 0
def xor (a b : Int) : Int := (unsigned a ^^^ unsigned b : Nat)
def srl (a b : Int) : Int := (unsigned a / 2 ^ amount b : Nat)
def sra (a b : Int) : Int := a / 2 ^ amount b
def or (a b : Int) : Int := (unsigned a ||| unsigned b : Nat)
def and (a b : Int) : Int := (unsigned a &&& unsigned b : Nat)

/-! ### The table -/

/-- `Effect x pc w result next`: the word `w`, at the address `pc` and with the signed values
`x` in the registers, puts `result` into the register it names, if it has a result, and
goes on at `next`. -/
inductive Effect (x : Nat → Int) (pc : Int) (w : Word) : Option Int → Int → Prop
  | lui : opcode w = 0x37 → Effect x pc w (some (immU w)) (pc + 4)
  | auipc : opcode w = 0x17 → Effect x pc w (some (pc + immU w)) (pc + 4)
  | jal : opcode w = 0x6f → Effect x pc w (some (pc + 4)) (pc + immJ w)
  -- The target is rounded down to an even address.
  | jalr : opcode w = 0x67 → funct3 w = 0 →
      Effect x pc w (some (pc + 4)) (2 * ((x (rs1 w) + immI w) / 2))
  | beq : opcode w = 0x63 → funct3 w = 0 →
      Effect x pc w none (if x (rs1 w) = x (rs2 w) then pc + immB w else pc + 4)
  | bne : opcode w = 0x63 → funct3 w = 1 →
      Effect x pc w none (if x (rs1 w) ≠ x (rs2 w) then pc + immB w else pc + 4)
  | blt : opcode w = 0x63 → funct3 w = 4 →
      Effect x pc w none (if x (rs1 w) < x (rs2 w) then pc + immB w else pc + 4)
  | bge : opcode w = 0x63 → funct3 w = 5 →
      Effect x pc w none (if x (rs1 w) ≥ x (rs2 w) then pc + immB w else pc + 4)
  | bltu : opcode w = 0x63 → funct3 w = 6 → Effect x pc w none
      (if unsigned (x (rs1 w)) < unsigned (x (rs2 w)) then pc + immB w else pc + 4)
  | bgeu : opcode w = 0x63 → funct3 w = 7 → Effect x pc w none
      (if unsigned (x (rs1 w)) ≥ unsigned (x (rs2 w)) then pc + immB w else pc + 4)
  | addi : opcode w = 0x13 → funct3 w = 0 →
      Effect x pc w (some (x (rs1 w) + immI w)) (pc + 4)
  | slli : opcode w = 0x13 → funct3 w = 1 → funct7 w = 0 →
      Effect x pc w (some (sll (x (rs1 w)) (immI w))) (pc + 4)
  | slti : opcode w = 0x13 → funct3 w = 2 →
      Effect x pc w (some (slt (x (rs1 w)) (immI w))) (pc + 4)
  | sltiu : opcode w = 0x13 → funct3 w = 3 →
      Effect x pc w (some (sltu (x (rs1 w)) (immI w))) (pc + 4)
  | xori : opcode w = 0x13 → funct3 w = 4 →
      Effect x pc w (some (xor (x (rs1 w)) (immI w))) (pc + 4)
  | srli : opcode w = 0x13 → funct3 w = 5 → funct7 w = 0 →
      Effect x pc w (some (srl (x (rs1 w)) (immI w))) (pc + 4)
  | srai : opcode w = 0x13 → funct3 w = 5 → funct7 w = 0x20 →
      Effect x pc w (some (sra (x (rs1 w)) (immI w))) (pc + 4)
  | ori : opcode w = 0x13 → funct3 w = 6 →
      Effect x pc w (some (or (x (rs1 w)) (immI w))) (pc + 4)
  | andi : opcode w = 0x13 → funct3 w = 7 →
      Effect x pc w (some (and (x (rs1 w)) (immI w))) (pc + 4)
  | add : opcode w = 0x33 → funct3 w = 0 → funct7 w = 0 →
      Effect x pc w (some (x (rs1 w) + x (rs2 w))) (pc + 4)
  | sub : opcode w = 0x33 → funct3 w = 0 → funct7 w = 0x20 →
      Effect x pc w (some (x (rs1 w) - x (rs2 w))) (pc + 4)
  | sll : opcode w = 0x33 → funct3 w = 1 → funct7 w = 0 →
      Effect x pc w (some (sll (x (rs1 w)) (x (rs2 w)))) (pc + 4)
  | slt : opcode w = 0x33 → funct3 w = 2 → funct7 w = 0 →
      Effect x pc w (some (slt (x (rs1 w)) (x (rs2 w)))) (pc + 4)
  | sltu : opcode w = 0x33 → funct3 w = 3 → funct7 w = 0 →
      Effect x pc w (some (sltu (x (rs1 w)) (x (rs2 w)))) (pc + 4)
  | xor : opcode w = 0x33 → funct3 w = 4 → funct7 w = 0 →
      Effect x pc w (some (xor (x (rs1 w)) (x (rs2 w)))) (pc + 4)
  | srl : opcode w = 0x33 → funct3 w = 5 → funct7 w = 0 →
      Effect x pc w (some (srl (x (rs1 w)) (x (rs2 w)))) (pc + 4)
  | sra : opcode w = 0x33 → funct3 w = 5 → funct7 w = 0x20 →
      Effect x pc w (some (sra (x (rs1 w)) (x (rs2 w)))) (pc + 4)
  | or : opcode w = 0x33 → funct3 w = 6 → funct7 w = 0 →
      Effect x pc w (some (or (x (rs1 w)) (x (rs2 w)))) (pc + 4)
  | and : opcode w = 0x33 → funct3 w = 7 → funct7 w = 0 →
      Effect x pc w (some (and (x (rs1 w)) (x (rs2 w)))) (pc + 4)
  | fence : opcode w = 0x0f → funct3 w = 0 → Effect x pc w none (pc + 4)
  | fenceI : opcode w = 0x0f → funct3 w = 1 → Effect x pc w none (pc + 4)

/-! ### Loads and stores -/

/-- The value of `n`, a number of the given width, with its highest bit as a sign or without. -/
def extended (width : Width) (isSigned : Bool) (n : Nat) : Int :=
  if isSigned ∧ 2 ^ (8 * width.bytes - 1) ≤ n then n - 2 ^ (8 * width.bytes) else n

/-- `Loads w width isSigned`: the word `w` loads so much from `x(rs1) + immI`, and extends it
so. -/
inductive Loads (w : Word) : Width → Bool → Prop
  | lb : opcode w = 0x03 → funct3 w = 0 → Loads w .byte true
  | lh : opcode w = 0x03 → funct3 w = 1 → Loads w .half true
  | lw : opcode w = 0x03 → funct3 w = 2 → Loads w .word false
  | lbu : opcode w = 0x03 → funct3 w = 4 → Loads w .byte false
  | lhu : opcode w = 0x03 → funct3 w = 5 → Loads w .half false

/-- `Stores w width`: the word `w` stores so much of `x(rs2)` at `x(rs1) + immS`. -/
inductive Stores (w : Word) : Width → Prop
  | sb : opcode w = 0x23 → funct3 w = 0 → Stores w .byte
  | sh : opcode w = 0x23 → funct3 w = 1 → Stores w .half
  | sw : opcode w = 0x23 → funct3 w = 2 → Stores w .word

end Manual

end HomeComputer
