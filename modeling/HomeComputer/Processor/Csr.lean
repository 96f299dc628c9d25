/-
Control and status registers.

`Csr` lists the registers that exist, with their numbers and names; `CsrFile` is what
they hold.  Several numbers may show parts of one thing: the two counters are 64 bits
wide and are seen in halves, once to be written and once to be read only.

The file also knows what a trap does to it (`enterTrap`), what the return from one
does (`leaveTrap`), and which interrupt is due (`pending?`).
-/
import HomeComputer.Processor.Trap

namespace HomeComputer

/-- A control register that exists. -/
inductive Csr
  | mstatus | misa | mie | mtvec | mscratch | mepc | mcause | mtval | mip
  | mcycle | minstret | mcycleh | minstreth
  | cycle | instret | cycleh | instreth | mhartid
  deriving DecidableEq, Repr

/-- The number of a control register; instructions can name the lower 4096. -/
abbrev CsrNumber := BitVec 16

namespace Csr

def all : List Csr :=
  [mstatus, misa, mie, mtvec, mscratch, mepc, mcause, mtval, mip, mcycle, minstret, mcycleh,
   minstreth, cycle, instret, cycleh, instreth, mhartid]

def number : Csr → CsrNumber
  | mstatus => 0x300 | misa => 0x301 | mie => 0x304 | mtvec => 0x305
  | mscratch => 0x340 | mepc => 0x341 | mcause => 0x342 | mtval => 0x343 | mip => 0x344
  | mcycle => 0xb00 | minstret => 0xb02 | mcycleh => 0xb80 | minstreth => 0xb82
  | cycle => 0xc00 | instret => 0xc02 | cycleh => 0xc80 | instreth => 0xc82
  | mhartid => 0xf14

def name : Csr → String
  | mstatus => "mstatus" | misa => "misa" | mie => "mie" | mtvec => "mtvec"
  | mscratch => "mscratch" | mepc => "mepc" | mcause => "mcause" | mtval => "mtval"
  | mip => "mip"
  | mcycle => "mcycle" | minstret => "minstret" | mcycleh => "mcycleh"
  | minstreth => "minstreth"
  | cycle => "cycle" | instret => "instret" | cycleh => "cycleh" | instreth => "instreth"
  | mhartid => "mhartid"

def ofNumber? (n : CsrNumber) : Option Csr := all.find? (·.number == n)

theorem ofNumber?_number (c : Csr) : ofNumber? c.number = some c := by
  cases c <;> decide

/-- Whether the number is one of those that may not be written, by its bits 11 and 10. -/
def isReadOnly (n : CsrNumber) : Bool := n.extractLsb' 10 2 == 0b11#2

end Csr

/-- Whether interrupts are taken, now and before the last trap. -/
structure Status where
  mie : Bool := false
  mpie : Bool := false
  deriving DecidableEq, Repr

namespace Status

/-- The status as a word: one bit each, at 3 and 7. -/
def toWord (s : Status) : Word :=
  (if s.mie then 0x08#32 else 0#32) ||| (if s.mpie then 0x80#32 else 0#32)

/-- The status in a word; all other bits are dropped. -/
def ofWord (w : Word) : Status := ⟨w.getLsbD 3, w.getLsbD 7⟩

@[simp] theorem ofWord_toWord (s : Status) : ofWord s.toWord = s := by
  rcases s with ⟨_ | _, _ | _⟩ <;> decide

end Status

/-- What the control registers hold. -/
structure CsrFile where
  mstatus : Status := {}
  /-- The interrupt lines that are let through. -/
  mie : Word := 0#32
  mtvec : Word := 0#32
  /-- A word for the handler's own use. -/
  mscratch : Word := 0#32
  mepc : Word := 0#32
  mcause : Word := 0#32
  /-- What the last trap has to tell besides. -/
  mtval : Word := 0#32
  /-- The interrupt lines that are raised. -/
  mip : Word := 0#32
  /-- Instructions begun, those that raised an exception included. -/
  cycle : BitVec 64 := 0#64
  instret : BitVec 64 := 0#64
  deriving DecidableEq, Repr

namespace CsrFile

/-- Words of 32 bits, with the base set and multiplication. -/
def misaValue : Word := 0x40001100#32

/-- A word with its low two bits cleared. -/
def aligned4 (w : Word) : Word := w &&& ~~~3#32

/-! ### Reading and writing -/

def lowHalf (c : BitVec 64) : Word := c.extractLsb' 0 32

def highHalf (c : BitVec 64) : Word := c.extractLsb' 32 32

def get (f : CsrFile) : Csr → Word
  | .mstatus => f.mstatus.toWord
  | .misa => misaValue
  | .mie => f.mie
  | .mtvec => f.mtvec
  | .mscratch => f.mscratch
  | .mepc => f.mepc
  | .mcause => f.mcause
  | .mtval => f.mtval
  | .mip => f.mip
  | .mcycle | .cycle => lowHalf f.cycle
  | .mcycleh | .cycleh => highHalf f.cycle
  | .minstret | .instret => lowHalf f.instret
  | .minstreth | .instreth => highHalf f.instret
  | .mhartid => 0#32

/-- The file with a register written.  What a register cannot hold is dropped; the
read-only registers are not written at all. -/
def set (f : CsrFile) (c : Csr) (v : Word) : CsrFile :=
  match c with
  | .mstatus => { f with mstatus := Status.ofWord v }
  | .mie => { f with mie := v }
  | .mtvec => { f with mtvec := aligned4 v }
  | .mscratch => { f with mscratch := v }
  | .mepc => { f with mepc := aligned4 v }
  | .mcause => { f with mcause := v }
  | .mtval => { f with mtval := v }
  | .mip => { f with mip := v }
  | .mcycle => { f with cycle := highHalf f.cycle ++ v }
  | .mcycleh => { f with cycle := v ++ lowHalf f.cycle }
  | .minstret => { f with instret := highHalf f.instret ++ v }
  | .minstreth => { f with instret := v ++ lowHalf f.instret }
  | .misa | .cycle | .instret | .cycleh | .instreth | .mhartid => f

/-- The content of the register with a number, if there is one. -/
def read? (f : CsrFile) (n : CsrNumber) : Option Word := (Csr.ofNumber? n).map f.get

/-- The file with the register of a number written, if there is one and it may be. -/
def write? (f : CsrFile) (n : CsrNumber) (v : Word) : Option CsrFile :=
  if Csr.isReadOnly n then none else (Csr.ofNumber? n).map (f.set · v)

/-! ### Traps -/

/-- The handler's address, and the file after a trap was recorded. -/
def enterTrap (f : CsrFile) (cause epc tval : Word) : Word × CsrFile :=
  (aligned4 f.mtvec,
    { f with mcause := cause, mepc := epc, mtval := tval, mstatus := ⟨false, f.mstatus.mie⟩ })

/-- The address to go on at, and the file after the trap was left. -/
def leaveTrap (f : CsrFile) : Word × CsrFile :=
  (f.mepc, { f with mstatus := ⟨f.mstatus.mpie, true⟩ })

/-- The position of the highest bit set in the low `n` bits of a word. -/
def highestBit? (w : Word) : Nat → Option Nat
  | 0 => none
  | n + 1 => if w.getLsbD n then some n else highestBit? w n

/-- The highest line that is raised and let through, if interrupts are taken. -/
def pending? (f : CsrFile) : Option Byte :=
  if f.mstatus.mie then (highestBit? (f.mip &&& f.mie) 32).map (BitVec.ofNat 8) else none

/-- The file with an interrupt line raised or cleared; the low five bits name the line. -/
@[inline] def setPending (f : CsrFile) (line : Byte) (level : Bool) : CsrFile :=
  let bit : Word := 1#32 <<< (line.toNat % 32)
  { f with mip := if level then f.mip ||| bit else f.mip &&& ~~~bit }

end CsrFile

end HomeComputer
