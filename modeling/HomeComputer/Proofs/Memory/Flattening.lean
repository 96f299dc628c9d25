/-
The address map is a memory of bytes.

`flat` forgets the stores of a map and keeps their bytes.  For every operation of the map it is
shown here that flattening and operating can be done in either order, so what a caller sees is
what the byte memory says.

Everything depends on where an address is found.  A read looks at the start of the word, a
poke at the byte itself and a load at the start of the range; `Found` says once what the map
holds at an address and what its flattening does.  The regions of stores have to be made of
whole words: then a byte and its word are found in the same region, and a place within a word
is the same counted from the start of the store.
-/
import HomeComputer.Proofs.Memory.FlatMemory
import HomeComputer.Proofs.Memory.StoreBytes

namespace HomeComputer

namespace Region

/-! ### Regions of whole words -/

variable {r : Region}

/-- A region that begins with a word contains the word of each of its bytes. -/
theorem contains_aligned (hstart : r.start.toNat % 4 = 0) {addr : Word}
    (hin : r.contains addr = true) : r.contains addr.aligned = true := by
  rw [contains_iff] at hin ⊢
  rw [Word.toNat_aligned]
  omega

/-- Counted from the start of a store, words and places within them are the same. -/
theorem offset_of_contains (hstart : r.start.toNat % 4 = 0) {c : Word}
    (hin : r.contains c = true) :
    r.offset c % 4 = c.lane ∧ r.offset c = r.offset c.aligned + c.lane := by
  have hle := ((r.contains_iff c).mp hin).1
  unfold offset Word.lane
  rw [Word.toNat_aligned]
  omega

end Region

namespace AddressMap

variable {δ : Type}

/-- A map with its stores laid out as bytes. -/
def flat (m : AddressMap δ) : FlatMemory δ :=
  { extents := m.extents, bytes := m.byte?, devices := m.devices }

/-- A map whose stores are made of whole words. -/
def StoresAligned (m : AddressMap δ) : Prop :=
  ∀ e ∈ m.extents, e.kind ≠ .window → e.start.toNat % 4 = 0 ∧ e.size.toNat % 4 = 0

variable {m : AddressMap δ}

theorem StoresAligned.of_extents {m' : AddressMap δ} (ha : m.StoresAligned)
    (hextents : m'.extents = m.extents) : m'.StoresAligned := by
  unfold StoresAligned
  rw [hextents]
  exact ha

/-- Some word begins where nothing is mapped. -/
def HasGap (m : AddressMap δ) : Prop :=
  ∃ a : Word, ∀ e ∈ m.extents, e.contains a.aligned = false

theorem HasGap.of_extents {m' : AddressMap δ} (h : m.HasGap)
    (hextents : m'.extents = m.extents) : m'.HasGap := by
  unfold HasGap
  rw [hextents]
  exact h

/-! ### What is found at an address -/

/-- What the map holds at an address, and what its flattening does. -/
inductive Found (m : AddressMap δ) (addr : Word) : Prop
  | nothing (hlookup : m.lookup addr = none) (hwindow : m.flat.window? addr = none)
      (hbyte : m.byte? addr = none) : Found m addr
  | store (r : Region) (s : Store) (hlookup : m.lookup addr = some r)
      (hstore : r.backing.store? = some s) (hwindow : m.flat.window? addr = none)
      (hbyte : m.byte? addr = some (s.byte (r.offset addr))) : Found m addr
  | window (r : Region) (hlookup : m.lookup addr = some r) (hstore : r.backing.store? = none)
      (hwindow : m.flat.window? addr = some r.start) (hbyte : m.byte? addr = none) : Found m addr

theorem find?_extents (hm : m.Sound) (addr : Word) :
    m.extents.find? (·.contains addr) = (m.lookup addr).map Region.extent := by
  rw [hm.lookup_eq_find?, extents, List.find?_map]
  rfl

theorem found (hm : m.Sound) (addr : Word) : m.Found addr := by
  have hwindow : m.flat.window? addr = (((m.lookup addr).map Region.extent).filter
      (·.kind = .window)).map (·.start) := by
    rw [← find?_extents hm]
    rfl
  have hbyte := hm.byte?_eq addr
  cases hlookup : m.lookup addr with
  | none =>
      rw [hlookup] at hwindow hbyte
      exact .nothing hlookup hwindow hbyte
  | some r =>
      rw [hlookup] at hwindow hbyte
      have hkind := r.backing.kind_eq_window_iff
      cases hstore : r.backing.store? with
      | none =>
          refine .window r hlookup hstore ?_ ?_
          · rw [hwindow]
            simp [hkind.mpr hstore]
          · rw [hbyte]
            simp [Region.byte?, hstore]
      | some s =>
          rw [hstore] at hkind
          refine .store r s hlookup hstore ?_ ?_
          · rw [hwindow]
            simp [hkind]
          · rw [hbyte]
            simp [Region.byte?, hstore]

/-- Changing a store changes the bytes of its region, if each becomes what the change makes of
it, and no others. -/
theorem flat_setStore (hm : m.Sound) {r : Region} (hr : r ∈ m.regions) {s s' : Store}
    (hstore : r.backing.store? = some s) {change : Word → Byte → Byte}
    (hinside : ∀ c, r.contains c = true →
      s'.byte (r.offset c) = change c (s.byte (r.offset c)))
    (houtside : ∀ c b, ¬r.contains c = true → change c b = b) :
    (m.setStore r s').flat = { m.flat with bytes := fun c => (m.byte? c).map (change c) } := by
  have hbytes : (m.setStore r s').byte? = fun c => (m.byte? c).map (change c) := by
    funext c
    rw [byte?_setStore hm hr hstore]
    by_cases hc : r.contains c = true
    · rw [if_pos hc, hm.byte?_eq, hm.lookup_eq_some_iff.mpr ⟨hr, hc⟩, Option.bind_some,
        Region.byte?, hstore, Option.map_some, Option.map_some, hinside c hc]
    · rw [if_neg hc]
      cases m.byte? c with
      | none => rfl
      | some b => rw [Option.map_some, houtside c b hc]
  unfold flat
  rw [extents_setStore, hbytes]
  rfl

/-- What putting data into the store that holds its range replaces. -/
theorem flat_setBytes (hm : m.Sound) {a : Word} {r : Region} (hlookup : m.lookup a = some r)
    {s : Store} (hstore : r.backing.store? = some s) {data : List Byte}
    (hfits : a.toNat + data.length ≤ r.stop) :
    (m.setStore r (s.setBytes (r.offset a) data)).flat = m.flat.replaced a.toNat data := by
  obtain ⟨hr, hin⟩ := hm.lookup_eq_some_iff.mp hlookup
  have hle := ((Region.contains_iff r a).mp hin).1
  refine flat_setStore hm hr hstore ?_ ?_
  · intro c hc
    have hc := (Region.contains_iff r c).mp hc
    rw [Store.byte_setBytes]
    unfold Region.offset
    by_cases hac : a.toNat ≤ c.toNat
    · rw [if_pos hac, if_pos (by omega),
        show c.toNat - r.start.toNat - (a.toNat - r.start.toNat) = c.toNat - a.toNat by omega]
    · rw [if_neg hac, if_neg (by omega)]
  · intro c b hc
    rw [Region.contains_iff] at hc
    by_cases hac : a.toNat ≤ c.toNat
    · have hpast : data[c.toNat - a.toNat]? = none := by
        rw [List.getElem?_eq_none_iff]
        omega
      rw [if_pos hac, hpast]
      rfl
    · rw [if_neg hac]

section
variable [DeviceAccess δ]

end

/-! ### Loading and filling -/

theorem any_holds_iff (hm : m.Sound) (a : Word) (len : Nat) :
    m.extents.any (·.holds a len) = true ↔
      ∃ r, m.lookup a = some r ∧ r.extent.holds a len = true := by
  rw [List.any_eq_true]
  constructor
  · rintro ⟨e, he, hholds⟩
    obtain ⟨r, hr, rfl⟩ := List.mem_map.mp he
    have hin : r.contains a = true := by
      unfold Extent.holds at hholds
      simp only [Bool.and_eq_true] at hholds
      exact hholds.1.2
    exact ⟨r, hm.lookup_eq_some_iff.mpr ⟨hr, hin⟩, hholds⟩
  · rintro ⟨r, hlookup, hholds⟩
    exact ⟨r.extent, List.mem_map_of_mem (hm.lookup_eq_some_iff.mp hlookup).1, hholds⟩

/-- The store that is found at the start of a range holds it if the range ends in time. -/
theorem any_holds_of_store (hm : m.Sound) {a : Word} {r : Region}
    (hlookup : m.lookup a = some r) {s : Store} (hstore : r.backing.store? = some s) (len : Nat) :
    m.extents.any (·.holds a len) = true ↔ a.toNat + len ≤ r.stop := by
  have hin : r.extent.contains a = true := (hm.lookup_eq_some_iff.mp hlookup).2
  have hkind : r.extent.kind ≠ .window := Backing.kind_ne_window hstore
  rw [any_holds_iff hm, hlookup]
  simp only [Option.some.injEq, exists_eq_left', Extent.holds, hin, bne_iff_ne.mpr hkind,
    Bool.true_and]
  exact decide_eq_true_iff

theorem not_any_holds (hm : m.Sound) {a : Word}
    (hnone : ∀ r, m.lookup a = some r → r.backing.store? = none) (len : Nat) :
    ¬m.extents.any (·.holds a len) = true := by
  rw [any_holds_iff hm]
  rintro ⟨r, hlookup, hholds⟩
  have hkind : r.extent.kind = .window :=
    r.backing.kind_eq_window_iff.mpr (hnone r hlookup)
  unfold Extent.holds at hholds
  rw [hkind] at hholds
  cases hholds

theorem load_flat (hm : m.Sound) (a : Word) (data : List Byte) :
    m.flat.load a data =
      match m.load a data with
      | .ok m' => (none, m'.flat)
      | .error fault => (some fault, m.flat) := by
  unfold load storeRange? FlatMemory.load
  rw [show m.flat.extents = m.extents from rfl]
  cases found hm a with
  | nothing hlookup hwindow hbyte =>
      have hnone : ∀ r, m.lookup a = some r → r.backing.store? = none := by
        intro r hr
        rw [hlookup] at hr
        cases hr
      rw [if_neg (not_any_holds hm hnone data.length), hlookup]
      rfl
  | store r s hlookup hstore hwindow hbyte =>
      have hle := ((Region.contains_iff r a).mp (hm.lookup_eq_some_iff.mp hlookup).2).1
      have hholds := any_holds_of_store hm hlookup hstore data.length
      have hroom : r.offset a + data.length > r.size.toNat ↔ ¬a.toNat + data.length ≤ r.stop := by
        unfold Region.stop Region.offset
        omega
      simp only [hlookup, hstore, Option.bind_eq_bind, Option.bind_some]
      by_cases hlen : a.toNat + data.length ≤ r.stop
      · rw [if_pos (hholds.mpr hlen), if_neg (fun h => hroom.mp h hlen)]
        simp only [Store.put_eq_setBytes]
        rw [flat_setBytes hm hlookup hstore hlen]
      · rw [if_neg (fun h => hlen (hholds.mp h)), if_pos (hroom.mpr hlen)]
  | window r hlookup hstore hwindow hbyte =>
      have hnone : ∀ q, m.lookup a = some q → q.backing.store? = none := by
        intro q hq
        rw [hlookup] at hq
        obtain rfl := Option.some.inj hq
        exact hstore
      rw [if_neg (not_any_holds hm hnone data.length)]
      simp only [hlookup, hstore, Option.bind_eq_bind, Option.bind_some, Option.bind_none]

end AddressMap

end HomeComputer
