/-
A memory of bytes.

What an address map is meant to be: a byte at every address of a boot store and of RAM, and
devices at the addresses of the windows.  There are no stores here, no pages and no lanes to be
masked, and no operation goes through another representation: each says outright which bytes it
answers and which it replaces.

`serve` is the meaning of a request.  An address map is right if it gives the same answers, in
any order of requests; that it does is shown where machines are.
-/
import HomeComputer.Proofs.Memory.Regions
import HomeComputer.Proofs.Word

namespace HomeComputer

/-- What the hart and the host ask of memory. -/
inductive MemoryRequest
  | read (addr : Word)
  | peek (addr : Word)
  | write (addr value : Word) (lanes : Lanes)
  | poke (addr : Word) (b : Byte)
  | load (addr : Word) (data : List Byte)
  | fill (addr : Word) (len : Nat) (b : Byte)
  | readMemory (addr : Word) (len : Nat)
  | writeMemory (addr : Word) (data : List Byte)

namespace MemoryRequest

/-- How long the range is that a request goes through byte by byte. -/
def span : MemoryRequest → Nat
  | readMemory _ len => len
  | writeMemory _ data => data.length
  | _ => 0

/-- How many bytes a request makes room for before it begins. -/
def room : MemoryRequest → Nat
  | readMemory _ len => len
  | _ => 0

end MemoryRequest

inductive MemoryAnswer
  /-- Nothing is said about a write. -/
  | done
  | word (w : Option Word)
  /-- The bytes of a range, if there is an answer. -/
  | bytes (data : Option (List Byte))
  /-- Whether every byte had somewhere to go. -/
  | accepted (all : Bool)
  | outcome (fault : Option Fault)
  deriving DecidableEq

namespace Extent

/-- Whether a store holds `len` bytes from an address of its own on, all of them. -/
def holds (e : Extent) (addr : Word) (len : Nat) : Bool :=
  e.kind != .window && e.contains addr && decide (addr.toNat + len ≤ e.stop)

/-- The start of the window that an address is in. -/
def window? (extents : List Extent) (addr : Word) : Option Word :=
  ((extents.find? (·.contains addr)).filter (·.kind = .window)).map (·.start)

end Extent

/-- The longest stretch of `len` numbers from `n` on that are all there. -/
def stretch (there : Nat → Bool) (n len : Nat) : List Nat := (List.range' n len).takeWhile there

/-- Bytes where stores are, and devices behind the windows. -/
structure FlatMemory (δ : Type) where
  extents : List Extent
  /-- The byte at an address of a boot store or of RAM. -/
  bytes : Word → Option Byte
  devices : δ

namespace FlatMemory

variable {δ : Type} (f : FlatMemory δ)

def window? (addr : Word) : Option Word := Extent.window? f.extents addr

def isRam (addr : Word) : Bool := (f.extents.find? (·.contains addr)).any (·.kind = .ram)

/-- The word of the four bytes that share it with an address, low end first. -/
def word? (addr : Word) : Option Word := do
  let b₀ ← f.bytes addr.aligned
  let b₁ ← f.bytes (addr.aligned + 1#32)
  let b₂ ← f.bytes (addr.aligned + 2#32)
  let b₃ ← f.bytes (addr.aligned + 3#32)
  return Word.ofBytes b₀ b₁ b₂ b₃

/-- The memory with the bytes from the address `n` on replaced, as far as there are any. -/
def replaced (n : Nat) (data : List Byte) : FlatMemory δ :=
  { f with bytes := fun c => (f.bytes c).map fun old =>
      if n ≤ c.toNat then (data[c.toNat - n]?).getD old else old }

/-- The memory with the bytes of a word replaced whose lanes are enabled. -/
def merged (addr value : Word) (lanes : Lanes) : FlatMemory δ :=
  { f with bytes := fun c => (f.bytes c).map fun old =>
      if c.aligned = addr.aligned ∧ lanes.getLsbD c.lane = true then value.byte c.lane else old }

/-- Loading succeeds exactly where one store holds the whole range. -/
def load (addr : Word) (data : List Byte) : Option Fault × FlatMemory δ :=
  if f.extents.any (·.holds addr data.length) then (none, f.replaced addr.toNat data)
  else (some (.imageTooLarge addr data.length), f)

/-- Filling is loading one byte over and over. -/
def fill (addr : Word) (len : Nat) (b : Byte) : Option Fault × FlatMemory δ :=
  f.load addr (List.replicate len b)

/-- Whether a byte for the address `n` has somewhere to go. -/
def takes (n : Nat) : Bool :=
  decide (n < 2 ^ 32) &&
    ((f.bytes (BitVec.ofNat 32 n)).isSome || (f.window? (BitVec.ofNat 32 n)).isSome)

section
variable [DeviceAccess δ]

def peek (addr : Word) : Option Word :=
  match f.window? addr.aligned with
  | some start => DeviceAccess.peek f.devices start addr.aligned
  | none => f.word? addr

def read (addr : Word) : Option Word × FlatMemory δ :=
  match f.window? addr.aligned with
  | some start =>
      let (answer, devices) := DeviceAccess.read f.devices start addr.aligned
      (answer, { f with devices })
  | none => (f.word? addr, f)

/-- What a store of the hart does: RAM takes the enabled lanes, and a boot store nothing. -/
def write (addr value : Word) (lanes : Lanes) : FlatMemory δ :=
  match f.window? addr.aligned with
  | some start =>
      { f with devices := DeviceAccess.write f.devices start addr.aligned value lanes }
  | none => if f.isRam addr.aligned then f.merged addr value lanes else f

/-- The byte that is shown at the address `n`: a window shows what its device does. -/
def shown (n : Nat) : Option Byte :=
  let addr : Word := BitVec.ofNat 32 n
  if n < 2 ^ 32 then
    match f.window? addr.aligned with
    | some start => (DeviceAccess.peek f.devices start addr.aligned).map (·.byte addr.lane)
    | none => f.bytes addr
  else none

/-- The devices after bytes from the address `n` on were handed to the windows they are in,
each as a write of one lane. -/
def deliver (extents : List Extent) (devices : δ) (n : Nat) : List Byte → δ
  | [] => devices
  | b :: data =>
      let addr : Word := BitVec.ofNat 32 n
      match Extent.window? extents addr with
      | some start =>
          deliver extents (DeviceAccess.write devices start addr.aligned (Store.repeated b)
            (Lanes.span addr.lane 1)) (n + 1) data
      | none => deliver extents devices (n + 1) data

/-- The memory after bytes from the address `n` on were put where they belong. -/
def put (n : Nat) (data : List Byte) : FlatMemory δ :=
  { f.replaced n data with devices := deliver f.extents f.devices n data }

def poke (addr : Word) (b : Byte) : Bool × FlatMemory δ :=
  (f.takes addr.toNat, f.put addr.toNat [b])

/-- As many of `len` bytes as are shown without a gap. -/
def readMemory (addr : Word) (len : Nat) : List Byte :=
  (stretch (fun n => (f.shown n).isSome) addr.toNat len).filterMap f.shown

/-- As many bytes are put as have somewhere to go without a gap. -/
def writeMemory (addr : Word) (data : List Byte) : Bool × FlatMemory δ :=
  let reach := (stretch f.takes addr.toNat data.length).length
  (reach == data.length, f.put addr.toNat (data.take reach))

/-- The answer to a request, and the memory afterwards. -/
def serve : MemoryRequest → MemoryAnswer × FlatMemory δ
  | .read addr => let (answer, f) := f.read addr; (.word answer, f)
  | .peek addr => (.word (f.peek addr), f)
  | .write addr value lanes => (.done, f.write addr value lanes)
  | .poke addr b => let (all, f) := f.poke addr b; (.accepted all, f)
  | .load addr data => let (fault, f) := f.load addr data; (.outcome fault, f)
  | .fill addr len b => let (fault, f) := f.fill addr len b; (.outcome fault, f)
  | .readMemory addr len => (.bytes (some (f.readMemory addr len)), f)
  | .writeMemory addr data => let (all, f) := f.writeMemory addr data; (.accepted all, f)

/-- The answers to requests one after the other, and the memory after all of them. -/
def serveAll (f : FlatMemory δ) : List MemoryRequest → List MemoryAnswer × FlatMemory δ
  | [] => ([], f)
  | q :: qs =>
      let (answer, f) := f.serve q
      let (answers, f) := f.serveAll qs
      (answer :: answers, f)

/-! ### Putting bytes one after the other -/

theorem deliver_cons (extents : List Extent) (devices : δ) (n : Nat) (b : Byte)
    (data : List Byte) : deliver extents devices n (b :: data) =
      deliver extents (deliver extents devices n [b]) (n + 1) data := by
  simp only [deliver]
  cases Extent.window? extents (BitVec.ofNat 32 n) with
  | none => rfl
  | some start => rfl

end

/-! ### Stretches -/

theorem stretch_succ (there : Nat → Bool) (n len : Nat) :
    stretch there n (len + 1) =
      if there n = true then n :: stretch there (n + 1) len else [] := by
  unfold stretch
  rw [List.range'_succ, List.takeWhile_cons]

/-- A stretch from `n` on whose numbers are counted from `i` on is over before the count comes to
2 ^ 32. -/
def Counted (there : Nat → Bool) (n i len : Nat) : Prop :=
  ∀ k < len, (∀ j < k, there (n + j) = true) → i + k < 2 ^ 32

theorem Counted.lt {there : Nat → Bool} {n i len : Nat} (h : Counted there n i (len + 1)) :
    i < 2 ^ 32 :=
  h 0 (Nat.succ_pos len) nofun

theorem Counted.succ {there : Nat → Bool} {n i len : Nat} (h : Counted there n i (len + 1))
    (hfirst : there n = true) : Counted there (n + 1) (i + 1) len := by
  intro k hk hbefore
  have hlt := h (k + 1) (Nat.succ_lt_succ hk) fun j hj => by
    cases j with
    | zero => exact hfirst
    | succ j =>
        rw [Nat.add_comm j, ← Nat.add_assoc]
        exact hbefore j (Nat.lt_of_succ_lt_succ hj)
  omega

/-- No device is in the way of a range: neither its bytes nor the words they are in belong to
a window. -/
def Clear (n len : Nat) : Prop :=
  ∀ k < 2 ^ 32, n ≤ k → k < n + len →
    f.window? (BitVec.ofNat 32 k) = none ∧ f.window? (Word.aligned (BitVec.ofNat 32 k)) = none

variable {f}

theorem Clear.tail {n len : Nat} (hclear : f.Clear n (len + 1)) : f.Clear (n + 1) len := by
  intro k hk hle hlt
  exact hclear k hk (by omega) (by omega)

section
variable [DeviceAccess δ]

end

end FlatMemory

end HomeComputer
