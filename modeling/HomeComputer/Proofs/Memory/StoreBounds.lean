/-
No request leaves its store.

A word access rounds its offset down and takes four bytes, of which the region need not contain all.
It stays inside the store because of two facts about different things: the region that was found
contains the address, and the store of a region has the size of the region rounded up to whole words
(`StoresRounded`).  The second holds of every store when its region is made, and no request changes
the size of a store.  Nothing is asked of where a region begins or ends.

The operations here are the ones of stores and of the address map, carried out with sums,
differences and slices that give up; the main result says that they never do, and answer as the
plain ones do.

What does give up is the way to the size of the largest stores.  Sizes are rounded up in words by
adding four before one is taken away, and for the last multiple of four that sum is no word,
although the rounded size is.
-/
import HomeComputer.Proofs.Machine.Memory
import HomeComputer.Proofs.Memory.Checked
import HomeComputer.Proofs.Memory.StoreBytes

namespace HomeComputer

/-! ### The sizes of stores -/

namespace Store

@[simp] theorem size_setWord (s : Store) (i : Nat) (w : Word) : (s.setWord i w).size = s.size := rfl

@[simp] theorem size_write (s : Store) (offset : Nat) (value : Word) (lanes : Lanes) :
    (s.write offset value lanes).size = s.size := rfl

@[simp] theorem size_setBytes (s : Store) (offset : Nat) (data : List Byte) :
    (s.setBytes offset data).size = s.size := by
  induction data generalizing s offset with
  | nil => rfl
  | cons b data ih => exact ih (s.setByte offset b) (offset + 1)

/-- The bytes of a word lie at the four offsets from the rounded one on. -/
theorem ofBytes?_bytes_word (s : Store) (offset : Nat) :
    Word.ofBytes? ((List.range' (offset / 4 * 4) 4).map s.byte) = some (s.word offset) := by
  have hbyte (i : Nat) (hi : i < 4) : s.byte (offset / 4 * 4 + i) = (s.word offset).byte i := by
    unfold byte word
    rw [show (offset / 4 * 4 + i) / 4 = offset / 4 by omega,
      show (offset / 4 * 4 + i) % 4 = i by omega]
  have hbytes : (List.range' (offset / 4 * 4) 4).map s.byte = (s.word offset).bytes := by
    show [s.byte (offset / 4 * 4 + 0), s.byte (offset / 4 * 4 + 1), s.byte (offset / 4 * 4 + 2),
      s.byte (offset / 4 * 4 + 3)] = _
    rw [hbyte 0 (by decide), hbyte 1 (by decide), hbyte 2 (by decide), hbyte 3 (by decide)]
    rfl
  rw [hbytes, Word.ofBytes?_bytes]

/-- Writing a word is replacing its four bytes. -/
theorem setBytes_word (s : Store) (offset : Nat) (w : Word) :
    s.setBytes (offset / 4 * 4) w.bytes = s.setWord (offset / 4) w := by
  rw [Nat.mul_comm]
  exact (s.setBytes_four _ _ _ _ _).trans (congrArg (s.setWord _) w.ofBytes_bytes)

end Store

namespace AddressMap

variable {δ : Type} {m m' : AddressMap δ} {r : Region} {addr : Word}

/-- Every store is as large as its region, rounded up to whole words. -/
def StoresRounded (m : AddressMap δ) : Prop :=
  ∀ r ∈ m.regions, ∀ s, r.backing.store? = some s → s.size = (r.size.toNat + 3) / 4 * 4

/-- A range is found if a store answers at its start and the region reaches to its end. -/
theorem storeRange?_eq_some {len : Nat} {s : Store}
    (hrange : m.storeRange? addr len = some (r, s)) :
    m.lookup addr = some r ∧ r.backing.store? = some s ∧ r.offset addr + len ≤ r.size.toNat := by
  unfold storeRange? at hrange
  obtain ⟨r', hlookup, hrange⟩ := Option.bind_eq_some_iff.mp hrange
  obtain ⟨s', hstore, hrange⟩ := Option.bind_eq_some_iff.mp hrange
  rw [Option.ite_none_left_eq_some] at hrange
  obtain ⟨hfits, hfound⟩ := hrange
  cases hfound
  exact ⟨hlookup, hstore, Nat.le_of_not_lt hfits⟩

namespace StoresRounded

theorem of_regions (h : m.StoresRounded) (hregions : m'.regions = m.regions) :
    m'.StoresRounded := by
  unfold StoresRounded
  rw [hregions]
  exact h

theorem addRegion (h : m.StoresRounded) (hadd : m.addRegion r = .ok m')
    (hr : ∀ s, r.backing.store? = some s → s.size = (r.size.toNat + 3) / 4 * 4) :
    m'.StoresRounded := by
  obtain ⟨-, -, rfl⟩ := addRegion_eq_ok_iff.mp hadd
  intro q hq
  rcases mem_insertRegion.mp hq with rfl | hq
  · exact hr
  · exact h q hq

/-- Other bytes in a store leave it as large. -/
theorem setStore (h : m.StoresRounded) (hm : m.Sound) (hlookup : m.lookup addr = some r)
    {s s' : Store} (hstore : r.backing.store? = some s) (hsize : s'.size = s.size) :
    (m.setStore r s').StoresRounded := by
  obtain ⟨hr, -⟩ := hm.lookup_eq_some_iff.mp hlookup
  intro q' hq' t ht
  obtain ⟨q, hq, rfl⟩ := List.mem_map.mp hq'
  by_cases hstart : q.start = r.start
  · obtain rfl := hm.eq_of_start hr hq hstart
    rw [if_pos rfl] at ht ⊢
    have hts : t = s' := by
      cases hbacking : q.backing with
      | boot _ | ram _ =>
          rw [hbacking] at ht
          exact (Option.some.inj ht).symm
      | window =>
          rw [hbacking] at hstore
          cases hstore
    rw [hts, hsize]
    exact h q hq s hstore
  · rw [if_neg hstart] at ht ⊢
    exact h q hq t ht

theorem load (h : m.StoresRounded) (hm : m.Sound) {data : List Byte}
    (hload : m.load addr data = .ok m') : m'.StoresRounded := by
  unfold AddressMap.load at hload
  cases hrange : m.storeRange? addr data.length with
  | none =>
      rw [hrange] at hload
      cases hload
  | some found =>
      obtain ⟨r, s⟩ := found
      rw [hrange] at hload
      obtain rfl := Except.ok.inj hload
      obtain ⟨hlookup, hstore, -⟩ := storeRange?_eq_some hrange
      refine h.setStore hm hlookup hstore ?_
      rw [Store.put_eq_setBytes, Store.size_setBytes]

section
variable [DeviceAccess δ]

theorem poke? (h : m.StoresRounded) (hm : m.Sound) {b : Byte} (hpoke : m.poke? addr b = some m') :
    m'.StoresRounded := by
  unfold AddressMap.poke? at hpoke
  cases hlookup : m.lookup addr with
  | none =>
      rw [hlookup] at hpoke
      cases hpoke
  | some r =>
      cases hstore : r.backing.store? with
      | some s =>
          simp only [hlookup, hstore, Option.some.injEq] at hpoke
          rw [← hpoke]
          exact h.setStore hm hlookup hstore rfl
      | none =>
          simp only [hlookup, hstore, Option.some.injEq] at hpoke
          rw [← hpoke]
          exact h.of_regions rfl

theorem read (h : m.StoresRounded) (addr : Word) : (m.read addr).2.StoresRounded := by
  unfold AddressMap.read
  cases m.lookup addr.aligned with
  | none => exact h
  | some r =>
      cases hstore : r.backing.store? with
      | some s =>
          simp only [hstore]
          exact h
      | none =>
          simp only [hstore]
          exact h.of_regions rfl

theorem write (h : m.StoresRounded) (hm : m.Sound) (addr value : Word) (lanes : Lanes) :
    (m.write addr value lanes).StoresRounded := by
  unfold AddressMap.write
  cases hlookup : m.lookup addr.aligned with
  | none => exact h
  | some r =>
      cases hbacking : r.backing with
      | boot s =>
          simp only [hbacking]
          exact h
      | ram s =>
          simp only [hbacking]
          exact h.setStore hm hlookup (congrArg Backing.store? hbacking) rfl
      | window =>
          simp only [hbacking]
          exact h.of_regions rfl

end

/-- The word at an address that a region contains is inside its store. -/
theorem word_inside (h : m.StoresRounded) (hm : m.Sound) (hlookup : m.lookup addr = some r)
    {s : Store} (hstore : r.backing.store? = some s) :
    r.offset addr / 4 * 4 + 4 ≤ s.size ∧ s.size < 2 ^ 64 := by
  obtain ⟨hr, hin⟩ := hm.lookup_eq_some_iff.mp hlookup
  have hsize := h r hr s hstore
  have hlt := r.size.isLt
  rw [Region.contains_iff] at hin
  unfold Region.stop at hin
  unfold Region.offset
  omega

/-- A range that was found is inside its store. -/
theorem range_inside (h : m.StoresRounded) (hm : m.Sound) {len : Nat} {s : Store}
    (hrange : m.storeRange? addr len = some (r, s)) :
    r.offset addr + len ≤ s.size ∧ s.size < 2 ^ 64 := by
  obtain ⟨hlookup, hstore, hfits⟩ := storeRange?_eq_some hrange
  have hsize := h r (hm.lookup_eq_some_iff.mp hlookup).1 s hstore
  have hlt := r.size.isLt
  omega

end StoresRounded

end AddressMap

namespace Machine

variable {δ : Type} [DeviceAccess δ] {m : Machine δ}

theorem storesRounded_writeFrom (h : m.map.StoresRounded) (hm : m.map.Sound) (addr : Word) (i : Nat)
    (data : List Byte) : (m.writeFrom addr i data).2.map.StoresRounded :=
  (writeFrom_induction (motive := fun map => map.StoresRounded ∧ map.Sound)
    (fun hmap hpoke => ⟨hmap.1.poke? hmap.2 hpoke,
      hmap.2.of_extents (AddressMap.extents_poke? hpoke)⟩) ⟨h, hm⟩ addr i data).1

theorem storesRounded_serve_load (h : m.map.StoresRounded) (hm : m.map.Sound) (addr : Word)
    (data : List Byte) : (m.serve (.load addr data)).2.map.StoresRounded := by
  simp only [serve]
  cases hload : m.map.load addr data with
  | error fault => exact h
  | ok map => exact h.load hm hload

/-- No request changes the size of a store. -/
theorem storesRounded_serve (h : m.map.StoresRounded) (hm : m.map.Sound) (q : MemoryRequest) :
    (m.serve q).2.map.StoresRounded := by
  cases q with
  | read addr => exact h.read addr
  | peek addr => exact h
  | write addr value lanes => exact h.write hm addr value lanes
  | poke addr b =>
      simp only [serve]
      cases hpoke : m.map.poke? addr b with
      | none => exact h
      | some map => exact h.poke? hm hpoke
  | load addr data => exact storesRounded_serve_load h hm addr data
  | fill addr len b =>
      rw [serve_fill]
      exact storesRounded_serve_load h hm addr (List.replicate len b)
  | readMemory addr len => exact h
  | writeMemory addr data => exact storesRounded_writeFrom h hm addr 0 data

theorem Reachable.storesRounded (hm : m.Reachable) : m.map.StoresRounded := by
  induction hm with
  | empty m hregions =>
      intro r hr
      rw [hregions] at hr
      cases hr
  | boot _ _ _ hadd ih | ram _ _ _ hadd ih =>
      refine ih.addRegion hadd fun s hs => ?_
      obtain rfl := Option.some.inj hs
      rfl
  | window _ _ _ hadd ih => exact ih.addRegion hadd nofun
  | @serve m hm q ih => exact storesRounded_serve ih hm.sound q

end Machine

namespace Checked

/-- A sum that fits into `bits` bits. -/
def add (bits a b : Nat) : Option Nat := if a + b < 2 ^ bits then some (a + b) else none

theorem add_eq {bits a b : Nat} (h : a + b < 2 ^ bits) : add bits a b = some (a + b) := if_pos h

/-! ### Regions -/

/-- A region with a store whose size is worked out in words. -/
def region (kind : Store → Backing) (start size : Word) : Option Region :=
  (Store.room? size).map fun room => { start, size, backing := kind { size := room.toNat } }

/-- The size is worked out exactly if it is below the last multiple of four, and it is then the
one of a store of zeros. -/
theorem room?_eq (size : Word) :
    (Store.room? size).map BitVec.toNat =
      if size.toNat < 2 ^ 32 - 4 then some (Store.zeros size.toNat).size else none := by
  unfold Store.room?
  by_cases h : size.toNat + 4 < 0x100000000
  · rw [if_pos h, if_pos (by omega), Option.map_some]
    refine congrArg some ((Word.toNat_aligned _).trans ?_)
    show (size + 4#32 - 1#32).toNat / 4 * 4 = (size.toNat + 3) / 4 * 4
    rw [BitVec.toNat_sub, BitVec.toNat_add]
    show (2 ^ 32 - 1 + (size.toNat + 4) % 2 ^ 32) % 2 ^ 32 / 4 * 4 = _
    omega
  · rw [if_neg h, if_neg (by omega)]
    rfl

theorem region_eq (kind : Store → Backing) (start size : Word) :
    region kind start size = if size.toNat < 2 ^ 32 - 4 then
      some { start, size, backing := kind (Store.zeros size.toNat) } else none := by
  have hregion : region kind start size = ((Store.room? size).map BitVec.toNat).map fun room =>
      { start, size, backing := kind { size := room } } := by
    rw [Option.map_map]
    rfl
  rw [hregion, room?_eq, apply_ite (Option.map _)]
  rfl

end Checked

/-! ### Stores -/

namespace CheckedStore

/-- The bytes from `start` up to `stop`, which must be in order and inside the store. -/
def slice (s : Store) (start stop : Nat) : Option (List Byte) :=
  if start ≤ stop ∧ stop ≤ s.size then some ((List.range' start (stop - start)).map s.byte)
  else none

/-- The store with the bytes from `start` up to `stop` replaced by as many others. -/
def copy (s : Store) (start stop : Nat) (data : List Byte) : Option Store :=
  if start ≤ stop ∧ stop ≤ s.size ∧ data.length = stop - start then some (s.setBytes start data)
  else none

/-- `Store.word` out of a slice. -/
def word (s : Store) (offset : Nat) : Option Word := do
  let start := offset / 4 * 4
  let stop ← Checked.add 64 start 4
  let data ← slice s start stop
  Word.ofBytes? data

/-- `Store.write` into a slice. -/
def write (s : Store) (offset : Nat) (value : Word) (lanes : Lanes) : Option Store := do
  let old ← word s offset
  let start := offset / 4 * 4
  let stop ← Checked.add 64 start 4
  copy s start stop (lanes.merge old value).bytes

/-- `Store.put` into a slice. -/
def put (s : Store) (offset : Nat) (data : List Byte) : Option Store := do
  let stop ← Checked.add 64 offset data.length
  copy s offset stop data

/-- `Store.fill` of a slice. -/
def fill (s : Store) (offset len : Nat) (b : Byte) : Option Store := do
  let stop ← Checked.add 64 offset len
  copy s offset stop (List.replicate len b)

variable {s : Store} {offset : Nat}

theorem slice_eq {start len : Nat} (h : start + len ≤ s.size) :
    slice s start (start + len) = some ((List.range' start len).map s.byte) := by
  unfold slice
  rw [if_pos ⟨Nat.le_add_right start len, h⟩, Nat.add_sub_cancel_left]

theorem copy_eq {start len : Nat} (h : start + len ≤ s.size) {data : List Byte}
    (hdata : data.length = len) : copy s start (start + len) data = some (s.setBytes start data) :=
  if_pos ⟨Nat.le_add_right start len, h, hdata.trans (Nat.add_sub_cancel_left start len).symm⟩

theorem word_eq (h : offset / 4 * 4 + 4 ≤ s.size) (hs : s.size < 2 ^ 64) :
    word s offset = some (s.word offset) := by
  show (Checked.add 64 (offset / 4 * 4) 4).bind _ = _
  rw [Checked.add_eq (Nat.lt_of_le_of_lt h hs)]
  show (slice s _ _).bind _ = _
  rw [slice_eq h, Option.bind_some, s.ofBytes?_bytes_word]

theorem write_eq (h : offset / 4 * 4 + 4 ≤ s.size) (hs : s.size < 2 ^ 64) (value : Word)
    (lanes : Lanes) : write s offset value lanes = some (s.write offset value lanes) := by
  show (word s offset).bind (fun old => (Checked.add 64 (offset / 4 * 4) 4).bind _) = _
  rw [word_eq h hs, Option.bind_some, Checked.add_eq (Nat.lt_of_le_of_lt h hs)]
  show copy s _ _ _ = _
  rw [copy_eq h rfl, s.setBytes_word]
  rfl

theorem put_eq {data : List Byte} (h : offset + data.length ≤ s.size) (hs : s.size < 2 ^ 64) :
    put s offset data = some (s.put offset data) := by
  unfold put
  rw [Checked.add_eq (Nat.lt_of_le_of_lt h hs)]
  show copy s _ _ _ = _
  rw [copy_eq h rfl, Store.put_eq_setBytes]

theorem fill_eq {len : Nat} (h : offset + len ≤ s.size) (hs : s.size < 2 ^ 64) (b : Byte) :
    fill s offset len b = some (s.fill offset len b) := by
  unfold fill
  rw [Checked.add_eq (Nat.lt_of_le_of_lt h hs)]
  show copy s _ _ _ = _
  rw [copy_eq h List.length_replicate, Store.fill_eq_setBytes]

end CheckedStore

/-! ### The address map -/

namespace CheckedMap

section
variable {δ : Type}

/-- `Region.contains` with the end checked. -/
def contains (r : Region) (addr : Word) : Option Bool := do
  let stop ← Checked.add 64 r.start.toNat r.size.toNat
  some (r.start.toNat ≤ addr.toNat && addr.toNat < stop)

/-- The region of an address, if there is one, and how far into it the address is. -/
def find (m : AddressMap δ) (addr : Word) : Option (Option (Region × Nat)) :=
  match AddressMap.lastBelow addr m.regions with
  | none => some none
  | some r => do
      let inside ← contains r addr
      if inside then
        let offset ← Checked.sub addr.toNat r.start.toNat
        some (some (r, offset))
      else some none

/-- `AddressMap.storeRange?`, and how far into the region the address is. -/
def storeRange (m : AddressMap δ) (addr : Word) (len : Nat) :
    Option (Option (Region × Store × Nat)) := do
  match ← find m addr with
  | none => some none
  | some (r, offset) =>
      let stop ← Checked.add 64 offset len
      if r.size.toNat < stop then some none
      else some (r.backing.store?.map fun s => (r, s, offset))

/-- The map with a range of one of its stores changed. -/
def changeRange (m : AddressMap δ) (addr : Word) (len : Nat)
    (change : Store → Nat → Option Store) : Option (Except Fault (AddressMap δ)) := do
  match ← storeRange m addr len with
  | none => some (.error (.imageTooLarge addr len))
  | some (r, s, offset) =>
      let s ← change s offset
      some (.ok (m.setStore r s))

def load (m : AddressMap δ) (addr : Word) (data : List Byte) :
    Option (Except Fault (AddressMap δ)) :=
  changeRange m addr data.length fun s offset => CheckedStore.put s offset data

def fill (m : AddressMap δ) (addr : Word) (len : Nat) (b : Byte) :
    Option (Except Fault (AddressMap δ)) :=
  changeRange m addr len fun s offset => CheckedStore.fill s offset len b

section
variable [DeviceAccess δ]

def poke (m : AddressMap δ) (addr : Word) (b : Byte) : Option (Option (AddressMap δ)) := do
  let lanes ← Checked.span addr.lane 1
  let value := Store.repeated b
  match ← find m addr with
  | none => some none
  | some (r, offset) =>
      match r.backing.store? with
      | some s =>
          let s ← CheckedStore.write s offset value lanes
          some (some (m.setStore r s))
      | none =>
          some (some { m with
            devices := DeviceAccess.write m.devices r.start addr.aligned value lanes })

def peek (m : AddressMap δ) (addr : Word) : Option (Option Word) := do
  match ← find m addr.aligned with
  | none => some none
  | some (r, offset) =>
      match r.backing.store? with
      | some s =>
          let w ← CheckedStore.word s offset
          some (some w)
      | none => some (DeviceAccess.peek m.devices r.start addr.aligned)

def read (m : AddressMap δ) (addr : Word) : Option (Option Word × AddressMap δ) := do
  match ← find m addr.aligned with
  | none => some (none, m)
  | some (r, offset) =>
      match r.backing.store? with
      | some s =>
          let w ← CheckedStore.word s offset
          some (some w, m)
      | none =>
          let (answer, devices) := DeviceAccess.read m.devices r.start addr.aligned
          some (answer, { m with devices })

def write (m : AddressMap δ) (addr value : Word) (lanes : Lanes) : Option (AddressMap δ) := do
  match ← find m addr.aligned with
  | none => some m
  | some (r, offset) =>
      match r.backing with
      | .boot _ => some m
      | .ram s =>
          let s ← CheckedStore.write s offset value lanes
          some (m.setStore r s)
      | .window =>
          some { m with
            devices := DeviceAccess.write m.devices r.start addr.aligned value lanes }

end

/-! ### They never do -/

theorem contains_eq (r : Region) (addr : Word) : contains r addr = some (r.contains addr) := by
  have hstart := r.start.isLt
  have hsize := r.size.isLt
  unfold contains
  rw [Checked.add_eq (by omega)]
  rfl

theorem find_eq (m : AddressMap δ) (addr : Word) :
    find m addr = some ((m.lookup addr).map fun r => (r, r.offset addr)) := by
  unfold find AddressMap.lookup
  cases AddressMap.lastBelow addr m.regions with
  | none => rfl
  | some r =>
      show (contains r addr).bind _ = _
      rw [contains_eq, Option.bind_some, Option.filter_some]
      by_cases hin : r.contains addr = true
      · rw [if_pos hin, if_pos hin, Checked.sub_eq ((r.contains_iff addr).mp hin).1]
        rfl
      · rw [if_neg hin, if_neg hin]
        rfl

theorem find_of_none {m : AddressMap δ} {addr : Word} (hlookup : m.lookup addr = none) :
    find m addr = some none := by
  rw [find_eq, hlookup]
  rfl

theorem find_of_some {m : AddressMap δ} {addr : Word} {r : Region}
    (hlookup : m.lookup addr = some r) : find m addr = some (some (r, r.offset addr)) := by
  rw [find_eq, hlookup]
  rfl

variable {m : AddressMap δ}

/-- The lengths of what a machine can hold leave room in the sum. -/
theorem storeRange_eq (m : AddressMap δ) (addr : Word) {len : Nat} (hlen : len < 2 ^ 63) :
    storeRange m addr len =
      some ((m.storeRange? addr len).map fun found => (found.1, found.2, found.1.offset addr)) := by
  unfold storeRange AddressMap.storeRange?
  cases hlookup : m.lookup addr with
  | none =>
      rw [find_of_none hlookup]
      rfl
  | some r =>
      have haddr := addr.isLt
      have hoffset : r.offset addr + len < 2 ^ 64 := by
        unfold Region.offset
        omega
      rw [find_of_some hlookup]
      show (Checked.add 64 (r.offset addr) len).bind _ = _
      rw [Checked.add_eq hoffset, Option.bind_some]
      show _ = some (Option.map _ (r.backing.store?.bind _))
      cases hstore : r.backing.store? with
      | none =>
          rw [Option.bind_none, Option.map_none, Option.map_none, ite_self]
      | some s =>
          rw [Option.bind_some, Option.map_some]
          by_cases hlarge : r.size.toNat < r.offset addr + len
          · rw [if_pos hlarge, if_pos hlarge]
            rfl
          · rw [if_neg hlarge, if_neg hlarge]
            rfl

theorem changeRange_eq (h : m.StoresRounded) (hm : m.Sound) (addr : Word) {len : Nat}
    (hlen : len < 2 ^ 63) {change : Store → Nat → Option Store} {plain : Store → Nat → Store}
    (hchange : ∀ s offset, offset + len ≤ s.size → s.size < 2 ^ 64 →
      change s offset = some (plain s offset)) :
    changeRange m addr len change = some (match m.storeRange? addr len with
      | none => .error (.imageTooLarge addr len)
      | some (r, s) => .ok (m.setStore r (plain s (r.offset addr)))) := by
  unfold changeRange
  rw [storeRange_eq m addr hlen]
  cases hrange : m.storeRange? addr len with
  | none => rfl
  | some found =>
      obtain ⟨r, s⟩ := found
      obtain ⟨hinside, hsize⟩ := h.range_inside hm hrange
      show (change s (r.offset addr)).bind _ = _
      rw [hchange s _ hinside hsize]
      rfl

theorem load_eq (h : m.StoresRounded) (hm : m.Sound) (addr : Word) {data : List Byte}
    (hlen : data.length < 2 ^ 63) : load m addr data = some (m.load addr data) :=
  changeRange_eq h hm addr hlen fun _ _ => CheckedStore.put_eq

theorem fill_eq (h : m.StoresRounded) (hm : m.Sound) (addr : Word) {len : Nat}
    (hlen : len < 2 ^ 63) (b : Byte) : fill m addr len b = some (m.fill addr len b) :=
  changeRange_eq h hm addr hlen fun _ _ hinside hsize => CheckedStore.fill_eq hinside hsize b

/-- An address finds nothing, or a region whose word there is inside its store. -/
theorem find_cases (h : m.StoresRounded) (hm : m.Sound) (addr : Word) :
    (m.lookup addr = none ∧ find m addr = some none) ∨
      ∃ r, m.lookup addr = some r ∧ find m addr = some (some (r, r.offset addr)) ∧
        ∀ s, r.backing.store? = some s →
          r.offset addr / 4 * 4 + 4 ≤ s.size ∧ s.size < 2 ^ 64 := by
  cases hlookup : m.lookup addr with
  | none => exact .inl ⟨rfl, find_of_none hlookup⟩
  | some r =>
      exact .inr ⟨r, rfl, find_of_some hlookup, fun s hs => h.word_inside hm hlookup hs⟩

variable [DeviceAccess δ]

theorem poke_eq (h : m.StoresRounded) (hm : m.Sound) (addr : Word) (b : Byte) :
    poke m addr b = some (m.poke? addr b) := by
  have hlane := addr.lane_lt
  unfold poke AddressMap.poke?
  rw [Checked.span_eq (by omega)]
  show (find m addr).bind _ = _
  rcases find_cases h hm addr with ⟨hlookup, hfind⟩ | ⟨r, hlookup, hfind, hword⟩
  · rw [hlookup, hfind]
    rfl
  · rw [hlookup, hfind, Option.bind_some]
    cases hstore : r.backing.store? with
    | none => simp only [hstore]
    | some s =>
        obtain ⟨hinside, hsize⟩ := hword s hstore
        simp only [hstore, CheckedStore.write_eq hinside hsize]
        rfl

theorem peek_eq (h : m.StoresRounded) (hm : m.Sound) (addr : Word) :
    peek m addr = some (m.peek addr) := by
  unfold peek AddressMap.peek
  show (find m addr.aligned).bind _ = _
  rcases find_cases h hm addr.aligned with ⟨hlookup, hfind⟩ | ⟨r, hlookup, hfind, hword⟩
  · rw [hlookup, hfind]
    rfl
  · rw [hlookup, hfind, Option.bind_some]
    cases hstore : r.backing.store? with
    | none => simp only [hstore]
    | some s =>
        obtain ⟨hinside, hsize⟩ := hword s hstore
        simp only [hstore, CheckedStore.word_eq hinside hsize]
        rfl

theorem read_eq (h : m.StoresRounded) (hm : m.Sound) (addr : Word) :
    read m addr = some (m.read addr) := by
  unfold read AddressMap.read
  show (find m addr.aligned).bind _ = _
  rcases find_cases h hm addr.aligned with ⟨hlookup, hfind⟩ | ⟨r, hlookup, hfind, hword⟩
  · rw [hlookup, hfind]
    rfl
  · rw [hlookup, hfind, Option.bind_some]
    cases hstore : r.backing.store? with
    | none => simp only [hstore]
    | some s =>
        obtain ⟨hinside, hsize⟩ := hword s hstore
        simp only [hstore, CheckedStore.word_eq hinside hsize]
        rfl

theorem write_eq (h : m.StoresRounded) (hm : m.Sound) (addr value : Word) (lanes : Lanes) :
    write m addr value lanes = some (m.write addr value lanes) := by
  unfold write AddressMap.write
  show (find m addr.aligned).bind _ = _
  rcases find_cases h hm addr.aligned with ⟨hlookup, hfind⟩ | ⟨r, hlookup, hfind, hword⟩
  · rw [hlookup, hfind]
    rfl
  · rw [hlookup, hfind, Option.bind_some]
    cases hbacking : r.backing with
    | boot s | window => simp only [hbacking]
    | ram s =>
        obtain ⟨hinside, hsize⟩ := hword s (congrArg Backing.store? hbacking)
        simp only [hbacking, CheckedStore.write_eq hinside hsize]
        rfl

end

end CheckedMap

namespace Machine

/-- **No request leaves its store.**  A region with a store can be made exactly if its size is
below the last multiple of four, wherever it starts.  Whatever regions a map is built of, crooked
ones and those past the end of the address space included, and whatever was asked of it before,
every read, look, write, poke, load and fill takes only slices that are inside a store, and no sum
or difference on the way fails.  The data of a load is as long as data can be; a fill has a length
that is a word. -/
theorem requests_stay_inside {δ : Type} [DeviceAccess δ] {m : Machine δ} (hm : m.Reachable) :
    (∀ start size, Checked.region .boot start size =
      if size.toNat < 2 ^ 32 - 4 then some (Region.boot start size) else none) ∧
    (∀ start size, Checked.region .ram start size =
      if size.toNat < 2 ^ 32 - 4 then some (Region.ram start size) else none) ∧
    (∀ addr, CheckedMap.read m.map addr = some (m.map.read addr)) ∧
    (∀ addr, CheckedMap.peek m.map addr = some (m.map.peek addr)) ∧
    (∀ addr value lanes,
      CheckedMap.write m.map addr value lanes = some (m.map.write addr value lanes)) ∧
    (∀ addr b, CheckedMap.poke m.map addr b = some (m.map.poke? addr b)) ∧
    (∀ addr data, data.length < 2 ^ 63 →
      CheckedMap.load m.map addr data = some (m.map.load addr data)) ∧
    (∀ addr (len : Word) b,
      CheckedMap.fill m.map addr len.toNat b = some (m.map.fill addr len.toNat b)) := by
  have h := hm.storesRounded
  refine ⟨Checked.region_eq .boot, Checked.region_eq .ram, CheckedMap.read_eq h hm.sound,
    CheckedMap.peek_eq h hm.sound, CheckedMap.write_eq h hm.sound, CheckedMap.poke_eq h hm.sound,
    fun addr data => CheckedMap.load_eq h hm.sound addr, fun addr len b => ?_⟩
  exact CheckedMap.fill_eq h hm.sound addr (by have hlen := len.isLt; omega) b

/-- A region below the end of the address space that begins and ends inside a word and runs past the
end: a look at its last whole word, a load across a word's edge and a fill of all of it. -/
theorem requests_stay_inside_crooked :
    let map : AddressMap Devices := { regions := [Region.ram 0xFFFFFFF9#32 0x9#32], devices := {} }
    CheckedMap.peek map 0xFFFFFFFF#32 = some (some 0#32) ∧
    CheckedMap.load map 0xFFFFFFFE#32 [0x1#8, 0x2#8] =
      some (map.load 0xFFFFFFFE#32 [0x1#8, 0x2#8]) ∧
    CheckedMap.fill map 0xFFFFFFF9#32 9 0xFF#8 = some (map.fill 0xFFFFFFF9#32 9 0xFF#8) := by
  intro map
  let start : AddressMap Devices := { devices := {} }
  have hempty : Reachable { fresh {} ({} : Devices) with map := start } := .empty _ rfl
  have hram : Reachable { fresh {} ({} : Devices) with map } := hempty.ram 0xFFFFFFF9#32 0x9#32 rfl
  obtain ⟨-, -, -, hpeek, -, -, hload, hfill⟩ := requests_stay_inside hram
  refine ⟨(hpeek _).trans ?_, hload _ _ (by decide), hfill _ 9#32 _⟩
  decide +kernel

/-- The sum on the way to the size of the largest store is no word, although there would be a place
for the region and the size itself is a word. -/
theorem no_largest_store :
    Checked.region .ram 0#32 0xFFFFFFFC#32 = none ∧
    (Store.zeros (0xFFFFFFFC#32 : Word).toNat).size = 0xFFFFFFFC ∧
    ∃ map, ({ devices := {} } : AddressMap Devices).addRegion
      (Region.ram 0#32 0xFFFFFFFC#32) = .ok map := by
  refine ⟨rfl, rfl, ?_⟩
  exact ⟨_, AddressMap.addRegion_eq_ok_iff.mpr ⟨by decide, nofun, rfl⟩⟩

end Machine

end HomeComputer
