/-
What each operation does.

`perform` takes an operation, the fields it works on and a `Context`, the part of the
computer an instruction can touch, and answers how the operation ended together with the
context as it left it.  An operation that raises an exception leaves a context too, and
nothing in the type says that it is the one it started from: that is a property of each
operation, which the hart relies on when it enters the trap.

`execute` is the same with the context of a failed operation set aside.

An operation that is handed fields of a format it does not understand is illegal.
Five operations never look at their fields and so accept any.
-/
import HomeComputer.Isa.Extension
import HomeComputer.Isa.Multiply
import HomeComputer.Memory.Access
import HomeComputer.Processor.Csr
import HomeComputer.Processor.Registers

namespace HomeComputer

/-- What one instruction can see and change. -/
structure Context (β : Type) where
  pc : Word
  next : Word
  registers : Registers
  csr : CsrFile
  bus : β

/-- How an operation ended, and the context as it left it. -/
inductive Outcome (β : Type)
  | completed (c : Context β)
  | raised (e : Exception) (c : Context β)

namespace Context

variable {β : Type}

/-- The context in which the instruction at `pc` starts. -/
def start (pc : Word) (registers : Registers) (csr : CsrFile) (bus : β) : Context β :=
  { pc, next := pc + 4#32, registers, csr, bus }

def get (c : Context β) (r : Reg) : Word := c.registers.get r

def set (c : Context β) (r : Reg) (v : Word) : Context β :=
  { c with registers := c.registers.set r v }

end Context

namespace Execute

variable {β : Type}

/-! ### Upper immediates and jumps -/

def lui : Instruction → Context β → Outcome β
  | .u _ rd upper, c => .completed (c.set rd (upperImmediate upper))
  | _, c => .raised .illegalInstruction c

def auipc : Instruction → Context β → Outcome β
  | .u _ rd upper, c => .completed (c.set rd (c.pc + upperImmediate upper))
  | _, c => .raised .illegalInstruction c

/-- Jumps by a distance and keeps the way back. -/
def jal : Instruction → Context β → Outcome β
  | .j _ rd half, c => .completed { c.set rd (c.pc + 4#32) with next := c.pc + jumpOffset half }
  | _, c => .raised .illegalInstruction c

/-- Jumps to an even address computed from a register and keeps the way back; the
register is read before the way back is written. -/
def jalr : Instruction → Context β → Outcome β
  | .i _ rd _ rs1 imm, c =>
      .completed { c.set rd (c.pc + 4#32) with
        next := (c.get rs1 + signedImmediate imm) &&& ~~~1#32 }
  | _, c => .raised .illegalInstruction c

/-- Goes on at a distance if the condition holds. -/
def branch (cond : Condition) : Instruction → Context β → Outcome β
  | .b _ _ rs1 rs2 half, c =>
      .completed (if cond.holds (c.get rs1) (c.get rs2) then
          { c with next := c.pc + branchOffset half }
        else c)
  | _, c => .raised .illegalInstruction c

/-! ### Memory -/

def load [Bus β] (k : LoadKind) : Instruction → Context β → Outcome β
  | .i _ rd _ rs1 imm, c =>
      let (v, bus) := Access.load c.bus (c.get rs1 + signedImmediate imm) k.width
      .completed ({ c with bus }.set rd (k.extend v))
  | _, c => .raised .illegalInstruction c

def store [Bus β] (w : Width) : Instruction → Context β → Outcome β
  | .s _ _ rs1 rs2 imm, c =>
      .completed { c with
        bus := Access.store c.bus (c.get rs1 + signedImmediate imm) (c.get rs2) w }
  | _, c => .raised .illegalInstruction c

/-! ### Arithmetic -/

/-- Puts a function of a register and an immediate into a register. -/
def withImmediate (f : Word → Word → Word) : Instruction → Context β → Outcome β
  | .i _ rd _ rs1 imm, c => .completed (c.set rd (f (c.get rs1) (signedImmediate imm)))
  | _, c => .raised .illegalInstruction c

/-- Puts a function of two registers into a register. -/
def withRegisters (f : Word → Word → Word) : Instruction → Context β → Outcome β
  | .r _ rd _ rs1 rs2 _, c => .completed (c.set rd (f (c.get rs1) (c.get rs2)))
  | _, c => .raised .illegalInstruction c

/-! ### Control registers -/

/-- Swaps or changes a control register.  A plain write into register 0 does not read,
and setting or clearing by register field 0 does not write. -/
def csr (a : CsrAction) (immediate : Bool) : Instruction → Context β → Outcome β
  | .i _ rd _ rs1 imm, c =>
      let number : CsrNumber := imm.setWidth 16
      let operand := if immediate then rs1.setWidth 32 else c.get rs1
      let reads := a ≠ .write ∨ rd ≠ 0#5
      let writes := a = .write ∨ rs1 ≠ 0#5
      match (if reads then c.csr.read? number else some 0#32) with
      | none => .raised .illegalInstruction c
      | some old =>
          match (if writes then c.csr.write? number (a.combine old operand)
            else some c.csr) with
          | none => .raised .illegalInstruction c
          | some csr => .completed ({ c with csr }.set rd old)
  | _, c => .raised .illegalInstruction c

def mret (c : Context β) : Context β :=
  let (next, csr) := c.csr.leaveTrap
  { c with next, csr }

end Execute

/-- What an operation does with the fields `insn` in a context. -/
def perform {β : Type} [Bus β] (op : Operation) (insn : Instruction) (c : Context β) :
    Outcome β :=
  match op with
  | .lui => Execute.lui insn c
  | .auipc => Execute.auipc insn c
  | .jal => Execute.jal insn c
  | .jalr => Execute.jalr insn c
  | .branch cond => Execute.branch cond insn c
  | .load k => Execute.load k insn c
  | .store w => Execute.store w insn c
  | .aluImm o => Execute.withImmediate o.apply insn c
  | .alu o => Execute.withRegisters o.apply insn c
  | .sub => Execute.withRegisters (· - ·) insn c
  | .mulDiv o => Execute.withRegisters o.apply insn c
  | .csr a immediate => Execute.csr a immediate insn c
  | .fence => .completed c
  | .fenceI => .completed c
  | .ecall => .raised .environmentCall c
  | .ebreak => .raised .breakpoint c
  | .mret => .completed (Execute.mret c)

/-- The context after an operation, or the exception it raised. -/
def execute {β : Type} [Bus β] (op : Operation) (insn : Instruction) (c : Context β) :
    Except Exception (Context β) :=
  match perform op insn c with
  | .completed c => .ok c
  | .raised e _ => .error e

end HomeComputer
