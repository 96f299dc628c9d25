/-
The address map.

Regions divide the address space among stores and devices.  They are kept in the
order of their starting addresses and never overlap, so the only region that can
contain an address is the last one that starts at or before it; `lookup` looks no
further.  A region may run up to the very end of the address space or past it, so
ends are natural numbers and not words.

The hart reaches memory through the bus operations.  `load`, `fill` and `poke` are the
host's: they write to the boot store too.
-/
import HomeComputer.Devices
import HomeComputer.Fault
import HomeComputer.Memory.Bus
import HomeComputer.Memory.Store

namespace HomeComputer

/-- What answers in a region. -/
inductive Backing
  /-- A store that the hart can only read. -/
  | boot (s : Store)
  | ram (s : Store)
  | window

namespace Backing

def name : Backing → String
  | boot _ => "boot" | ram _ => "ram" | window => "mmio"

def store? : Backing → Option Store
  | boot s => some s
  | ram s => some s
  | window => none

def withStore (s : Store) : Backing → Backing
  | boot _ => boot s
  | ram _ => ram s
  | window => window

def isWindow : Backing → Bool
  | window => true
  | _ => false

end Backing

/-- A range of addresses and what answers there. -/
structure Region where
  start : Word
  size : Word
  backing : Backing

namespace Region

def boot (start size : Word) : Region := { start, size, backing := .boot (Store.zeros size.toNat) }

def ram (start size : Word) : Region := { start, size, backing := .ram (Store.zeros size.toNat) }

def window (start size : Word) : Region := { start, size, backing := .window }

def name (r : Region) : String := r.backing.name

/-- The first number past the region's addresses. -/
def stop (r : Region) : Nat := r.start.toNat + r.size.toNat

def contains (r : Region) (addr : Word) : Bool :=
  r.start.toNat ≤ addr.toNat && addr.toNat < r.stop

def overlaps (r q : Region) : Bool := r.start.toNat < q.stop && q.start.toNat < r.stop

/-- The distance of an address from the start. -/
def offset (r : Region) (addr : Word) : Nat := addr.toNat - r.start.toNat

end Region

/-- Regions in the order of their starts, and the devices behind the windows. -/
structure AddressMap (δ : Type) where
  regions : List Region := []
  devices : δ
  /-- What becomes of the hart's misaligned accesses. -/
  alignment : Alignment := Alignment.standard

namespace AddressMap

variable {δ : Type}

/-! ### The table of regions -/

/-- The last region of a list that starts at or before an address. -/
def lastBelow (addr : Word) : List Region → Option Region
  | [] => none
  | r :: rs =>
      match lastBelow addr rs with
      | some q => some q
      | none => if r.start.toNat ≤ addr.toNat then some r else none

def lookup (m : AddressMap δ) (addr : Word) : Option Region :=
  (lastBelow addr m.regions).filter (·.contains addr)

/-- A list of regions with one more at its place. -/
def insertRegion (r : Region) : List Region → List Region
  | [] => [r]
  | q :: qs => if r.start.toNat ≤ q.start.toNat then r :: q :: qs else q :: insertRegion r qs

/-- The map with one more region, unless it is empty or meets another. -/
def addRegion (m : AddressMap δ) (r : Region) : Except Fault (AddressMap δ) :=
  if r.size = 0#32 then .error (.emptyRegion r.name)
  else if m.regions.any (r.overlaps ·) then .error (.regionOverlap r.name r.start)
  else .ok { m with regions := insertRegion r m.regions }

/-- The map with another store behind a region. -/
def setStore (m : AddressMap δ) (r : Region) (s : Store) : AddressMap δ :=
  { m with regions := m.regions.map fun q =>
      if q.start = r.start then { q with backing := q.backing.withStore s } else q }

/-! ### The standard map -/

def bootStart : Word := 0x00000000#32

def bootSize : Word := 0x00010000#32

def ramStart : Word := 0x80000000#32

/-- The size of RAM unless another is chosen. -/
def ramSize : Word := 0x00100000#32

/-- The computer's map: boot store, device window and RAM. -/
def standard (ramSize : Word) (alignment : Alignment) (devices : δ) :
    Except Fault (AddressMap δ) := do
  let m : AddressMap δ := { devices, alignment }
  let m ← m.addRegion (Region.boot bootStart bootSize)
  let m ← m.addRegion (Region.window Devices.windowStart Devices.windowSize)
  m.addRegion (Region.ram ramStart ramSize)

/-! ### The host's access -/

/-- The region and store that hold `len` bytes from an address on, all of them. -/
def storeRange? (m : AddressMap δ) (addr : Word) (len : Nat) : Option (Region × Store) := do
  let r ← m.lookup addr
  let s ← r.backing.store?
  if r.offset addr + len > r.size.toNat then none else some (r, s)

/-- The map with data put into a store. -/
def load (m : AddressMap δ) (addr : Word) (data : List Byte) : Except Fault (AddressMap δ) :=
  match m.storeRange? addr data.length with
  | none => .error (.imageTooLarge addr data.length)
  | some (r, s) => .ok (m.setStore r (s.put (r.offset addr) data))

/-- The map with a stretch of a store set to one byte. -/
def fill (m : AddressMap δ) (addr : Word) (len : Nat) (b : Byte) :
    Except Fault (AddressMap δ) :=
  match m.storeRange? addr len with
  | none => .error (.imageTooLarge addr len)
  | some (r, s) => .ok (m.setStore r (s.fill (r.offset addr) len b))

section
variable [DeviceAccess δ]

/-- The map with a single byte written, if anything answers at the address. -/
def poke? (m : AddressMap δ) (addr : Word) (b : Byte) : Option (AddressMap δ) :=
  let lanes := Lanes.span addr.lane 1
  let value := Store.repeated b
  match m.lookup addr with
  | none => none
  | some r =>
      match r.backing.store? with
      | some s => some (m.setStore r (s.write (r.offset addr) value lanes))
      | none =>
          some { m with devices := DeviceAccess.write m.devices r.start addr.aligned value lanes }

/-- The interrupt lines that the devices raise, through any window. -/
def lines (m : AddressMap δ) : Word :=
  m.regions.foldl (fun lines r =>
    if r.backing.isWindow then lines ||| DeviceAccess.lines m.devices r.start else lines) 0#32

/-! ### The hart's access -/

/-- What a look at an address shows. -/
def peek (m : AddressMap δ) (addr : Word) : Option Word :=
  match m.lookup addr.aligned with
  | none => none
  | some r =>
      match r.backing.store? with
      | some s => some (s.word (r.offset addr.aligned))
      | none => DeviceAccess.peek m.devices r.start addr.aligned

/-- What reading an address hands over, and the map afterwards. -/
def read (m : AddressMap δ) (addr : Word) : Option Word × AddressMap δ :=
  match m.lookup addr.aligned with
  | none => (none, m)
  | some r =>
      match r.backing.store? with
      | some s => (some (s.word (r.offset addr.aligned)), m)
      | none =>
          let (answer, devices) := DeviceAccess.read m.devices r.start addr.aligned
          (answer, { m with devices })

/-- The map after a write; the boot store takes none. -/
def write (m : AddressMap δ) (addr value : Word) (lanes : Lanes) : AddressMap δ :=
  match m.lookup addr.aligned with
  | none => m
  | some r =>
      match r.backing with
      | .boot _ => m
      | .ram s => m.setStore r (s.write (r.offset addr.aligned) value lanes)
      | .window =>
          { m with devices := DeviceAccess.write m.devices r.start addr.aligned value lanes }

instance : Bus (AddressMap δ) where
  read := read
  peek := peek
  write := write
  alignment m := m.alignment

end

end AddressMap

end HomeComputer
