/-
The table of regions.

Where a region begins, how long it is and whether a store or a device answers there never
changes once it is in the table; only what the stores hold does.  `Extent` is that part of a
region, and `Sound` says of the extents of a map that none is empty and that each ends before
the next begins.

From soundness alone, `lookup` finds the region that contains an address whenever there is
one, although it looks at a single candidate.  So the bytes of a map can be described with no
word about the search: `byte?` asks every region in turn.
-/
import HomeComputer.Memory.AddressMap
import Mathlib.Data.List.Pairwise

namespace HomeComputer

/-! ### Extents -/

/-- What answers in a region. -/
inductive Kind
  /-- A store that the hart can only read. -/
  | boot
  | ram
  | window
  deriving DecidableEq, Repr

def Backing.kind : Backing → Kind
  | boot _ => .boot
  | ram _ => .ram
  | window => .window

/-- A window is what has no store. -/
theorem Backing.kind_eq_window_iff (b : Backing) : b.kind = .window ↔ b.store? = none := by
  cases b <;> simp [kind, store?]

theorem Backing.kind_ne_window {b : Backing} {s : Store} (hstore : b.store? = some s) :
    b.kind ≠ .window := by
  rw [Ne, kind_eq_window_iff, hstore]
  exact Option.some_ne_none s

/-- A range of addresses and the kind of what answers there. -/
structure Extent where
  start : Word
  size : Word
  kind : Kind
  deriving DecidableEq, Repr

namespace Extent

/-- The first number past the addresses. -/
def stop (e : Extent) : Nat := e.start.toNat + e.size.toNat

def contains (e : Extent) (addr : Word) : Bool :=
  e.start.toNat ≤ addr.toNat && addr.toNat < e.stop

end Extent

namespace Region

def extent (r : Region) : Extent := { start := r.start, size := r.size, kind := r.backing.kind }

@[simp] theorem start_extent (r : Region) : r.extent.start = r.start := rfl

@[simp] theorem kind_extent (r : Region) : r.extent.kind = r.backing.kind := rfl

theorem contains_iff (r : Region) (addr : Word) :
    r.contains addr = true ↔ r.start.toNat ≤ addr.toNat ∧ addr.toNat < r.stop := by
  unfold contains
  simp

/-- The byte at an address, if a store answers there. -/
def byte? (r : Region) (addr : Word) : Option Byte :=
  r.backing.store?.map (·.byte (r.offset addr))

end Region

/-- Extents of which none is empty and each ends before the next begins. -/
structure Apart (extents : List Extent) : Prop where
  ordered : extents.Pairwise fun e f => e.stop ≤ f.start.toNat
  size_ne_zero : ∀ e ∈ extents, e.size ≠ 0#32

namespace AddressMap

variable {δ : Type}

def extents (m : AddressMap δ) : List Extent := m.regions.map Region.extent

/-- A map whose regions are in order and apart. -/
def Sound (m : AddressMap δ) : Prop := Apart m.extents

/-- The byte at an address of a boot store or of RAM. -/
def byte? (m : AddressMap δ) (addr : Word) : Option Byte :=
  (m.regions.find? (·.contains addr)).bind (·.byte? addr)

namespace Sound

variable {m : AddressMap δ}

theorem of_extents {m' : AddressMap δ} (hm : m.Sound) (hextents : m'.extents = m.extents) :
    m'.Sound := by
  unfold Sound
  rw [hextents]
  exact hm

theorem ordered (hm : m.Sound) : m.regions.Pairwise fun r q => r.stop ≤ q.start.toNat :=
  List.pairwise_map.mp (Apart.ordered hm)

theorem start_lt_stop (hm : m.Sound) {r : Region} (hr : r ∈ m.regions) :
    r.start.toNat < r.stop := by
  have hsize : r.size ≠ 0#32 := Apart.size_ne_zero hm r.extent (List.mem_map_of_mem hr)
  have hpos : r.size.toNat ≠ 0 := fun h => hsize (BitVec.eq_of_toNat_eq h)
  unfold Region.stop
  omega

/-- Of two regions one ends before the other begins. -/
theorem disjoint (hm : m.Sound) {r q : Region} (hr : r ∈ m.regions) (hq : q ∈ m.regions)
    (hne : r ≠ q) : r.stop ≤ q.start.toNat ∨ q.stop ≤ r.start.toNat := by
  have : Std.Symm fun r q : Region =>
      r.stop ≤ q.start.toNat ∨ q.stop ≤ r.start.toNat := ⟨fun _ _ h => h.symm⟩
  have hside : m.regions.Pairwise fun r q =>
      r.stop ≤ q.start.toNat ∨ q.stop ≤ r.start.toNat := hm.ordered.imp Or.inl
  exact hside.forall hr hq hne

theorem eq_of_contains (hm : m.Sound) {r q : Region} (hr : r ∈ m.regions) (hq : q ∈ m.regions)
    {addr : Word} (hraddr : r.contains addr = true) (hqaddr : q.contains addr = true) :
    r = q := by
  rw [Region.contains_iff] at hraddr hqaddr
  by_contra hne
  rcases hm.disjoint hr hq hne with h | h
  · omega
  · omega

theorem eq_of_start (hm : m.Sound) {r q : Region} (hr : r ∈ m.regions) (hq : q ∈ m.regions)
    (hstart : q.start = r.start) : q = r := by
  have hrpos := hm.start_lt_stop hr
  have hqpos := hm.start_lt_stop hq
  have hqin : q.contains r.start = true := by
    rw [← hstart, Region.contains_iff]
    exact ⟨Nat.le_refl _, hqpos⟩
  have hrin : r.contains r.start = true := by
    rw [Region.contains_iff]
    exact ⟨Nat.le_refl _, hrpos⟩
  exact hm.eq_of_contains hq hr hqin hrin

end Sound

/-! ### Looking up -/

theorem start_le_of_lastBelow {addr : Word} {rs : List Region} {q : Region}
    (hlast : lastBelow addr rs = some q) : q ∈ rs ∧ q.start.toNat ≤ addr.toNat := by
  induction rs with
  | nil => cases hlast
  | cons r rs ih =>
      unfold lastBelow at hlast
      cases hrest : lastBelow addr rs with
      | some p =>
          simp only [hrest] at hlast
          obtain rfl := Option.some.inj hlast
          obtain ⟨hmem, hle⟩ := ih hrest
          exact ⟨List.mem_cons_of_mem r hmem, hle⟩
      | none =>
          simp only [hrest] at hlast
          by_cases hle : r.start.toNat ≤ addr.toNat
          · rw [if_pos hle] at hlast
            obtain rfl := Option.some.inj hlast
            exact ⟨List.mem_cons_self, hle⟩
          · rw [if_neg hle] at hlast
            cases hlast

/-- Among regions apart from each other the only candidate is the last one that starts at or
before the address. -/
theorem filter_lastBelow {addr : Word} {rs : List Region}
    (hordered : rs.Pairwise fun r q => r.stop ≤ q.start.toNat) :
    (lastBelow addr rs).filter (·.contains addr) = rs.find? (·.contains addr) := by
  induction rs with
  | nil => rfl
  | cons r rs ih =>
      obtain ⟨hfirst, hrest⟩ := List.pairwise_cons.mp hordered
      have ih := ih hrest
      unfold lastBelow
      cases hlast : lastBelow addr rs with
      | some q =>
          -- A later region starts at or before the address, so this one has ended.
          obtain ⟨hmem, hle⟩ := start_le_of_lastBelow hlast
          have hout : r.contains addr = false := by
            rw [Bool.eq_false_iff]
            intro hin
            have hstop := hfirst q hmem
            rw [Region.contains_iff] at hin
            omega
          rw [hlast] at ih
          simp only [List.find?_cons, hout]
          exact ih
      | none =>
          rw [hlast] at ih
          by_cases hin : r.contains addr = true
          · have hle : r.start.toNat ≤ addr.toNat := ((r.contains_iff addr).mp hin).1
            simp [hle, hin]
          · have hout : r.contains addr = false := Bool.eq_false_iff.mpr hin
            simp only [List.find?_cons, hout]
            by_cases hle : r.start.toNat ≤ addr.toNat
            · rw [if_pos hle, Option.filter_some, hout]
              exact ih
            · rw [if_neg hle]
              exact ih

namespace Sound

variable {m : AddressMap δ}

theorem lookup_eq_find? (hm : m.Sound) (addr : Word) :
    m.lookup addr = m.regions.find? (·.contains addr) :=
  filter_lastBelow hm.ordered

theorem lookup_eq_some_iff (hm : m.Sound) {addr : Word} {r : Region} :
    m.lookup addr = some r ↔ r ∈ m.regions ∧ r.contains addr = true := by
  have hfound {q : Region} (hfind : m.regions.find? (·.contains addr) = some q) :
      q ∈ m.regions ∧ q.contains addr = true :=
    ⟨List.mem_of_find?_eq_some hfind,
      List.find?_some (p := fun q : Region => q.contains addr) hfind⟩
  rw [hm.lookup_eq_find?]
  refine ⟨hfound, ?_⟩
  rintro ⟨hr, hin⟩
  cases hfind : m.regions.find? (·.contains addr) with
  | none => exact absurd hin (List.find?_eq_none.mp hfind r hr)
  | some q =>
      obtain ⟨hq, hqin⟩ := hfound hfind
      rw [hm.eq_of_contains hq hr hqin hin]

theorem byte?_eq (hm : m.Sound) (addr : Word) :
    m.byte? addr = (m.lookup addr).bind (·.byte? addr) := by
  rw [hm.lookup_eq_find?]
  rfl

end Sound

/-! ### Adding a region -/

theorem mem_insertRegion {r q : Region} {rs : List Region} :
    q ∈ insertRegion r rs ↔ q = r ∨ q ∈ rs := by
  induction rs with
  | nil => simp [insertRegion]
  | cons p rs ih =>
      unfold insertRegion
      by_cases hle : r.start.toNat ≤ p.start.toNat
      · rw [if_pos hle]
        simp
      · rw [if_neg hle, List.mem_cons, ih, List.mem_cons]
        exact or_left_comm

/-- A region that meets no other keeps the order at its place. -/
theorem ordered_insertRegion {r : Region} {rs : List Region} (hr : r.start.toNat < r.stop)
    (hpos : ∀ q ∈ rs, q.start.toNat < q.stop) (hclear : ∀ q ∈ rs, r.overlaps q = false)
    (hordered : rs.Pairwise fun r q => r.stop ≤ q.start.toNat) :
    (insertRegion r rs).Pairwise fun r q => r.stop ≤ q.start.toNat := by
  have hside : ∀ q ∈ rs, r.stop ≤ q.start.toNat ∨ q.stop ≤ r.start.toNat := by
    intro q hq
    have hmeets := hclear q hq
    simp only [Region.overlaps, Bool.and_eq_false_iff, decide_eq_false_iff_not] at hmeets
    omega
  induction rs with
  | nil => exact List.pairwise_singleton _ r
  | cons p rs ih =>
      obtain ⟨hfirst, hrest⟩ := List.pairwise_cons.mp hordered
      have hp := hpos p List.mem_cons_self
      have hpside := hside p List.mem_cons_self
      unfold insertRegion
      by_cases hle : r.start.toNat ≤ p.start.toNat
      · rw [if_pos hle]
        refine List.pairwise_cons.mpr ⟨?_, hordered⟩
        intro q hq
        rcases List.mem_cons.mp hq with rfl | hq
        · omega
        · have hafter := hfirst q hq
          omega
      · rw [if_neg hle]
        refine List.pairwise_cons.mpr ⟨?_, ?_⟩
        · intro q hq
          rcases mem_insertRegion.mp hq with rfl | hq
          · omega
          · exact hfirst q hq
        · exact ih (fun q hq => hpos q (List.mem_cons_of_mem p hq))
            (fun q hq => hclear q (List.mem_cons_of_mem p hq)) hrest
            (fun q hq => hside q (List.mem_cons_of_mem p hq))

/-- What adding a region does: it is not empty and meets no other, and it is put at its
place. -/
theorem addRegion_eq_ok_iff {m m' : AddressMap δ} {r : Region} :
    m.addRegion r = .ok m' ↔ r.size ≠ 0#32 ∧ (∀ q ∈ m.regions, r.overlaps q = false) ∧
      m' = { m with regions := insertRegion r m.regions } := by
  unfold addRegion
  by_cases hsize : r.size = 0#32
  · rw [if_pos hsize]
    refine ⟨fun h => (by cases h), ?_⟩
    rintro ⟨hne, -, -⟩
    exact absurd hsize hne
  · by_cases hclear : m.regions.any (r.overlaps ·) = true
    · rw [if_neg hsize, if_pos hclear]
      obtain ⟨q, hq, hmeets⟩ := List.any_eq_true.mp hclear
      refine ⟨fun h => (by cases h), ?_⟩
      rintro ⟨-, hnone, -⟩
      rw [hnone q hq] at hmeets
      cases hmeets
    · rw [if_neg hsize, if_neg hclear, Except.ok.injEq]
      have hnone : ∀ q ∈ m.regions, r.overlaps q = false := by
        intro q hq
        rw [Bool.eq_false_iff]
        exact fun hmeets => hclear (List.any_eq_true.mpr ⟨q, hq, hmeets⟩)
      refine ⟨fun h => ⟨hsize, hnone, h.symm⟩, ?_⟩
      rintro ⟨-, -, h⟩
      exact h.symm

theorem sound_of_regions_nil {m : AddressMap δ} (hm : m.regions = []) : m.Sound := by
  unfold Sound extents
  rw [hm]
  exact ⟨List.Pairwise.nil, by simp⟩

theorem Sound.addRegion {m m' : AddressMap δ} (hm : m.Sound) {r : Region}
    (hadd : m.addRegion r = .ok m') : m'.Sound := by
  obtain ⟨hsize, hclear, rfl⟩ := addRegion_eq_ok_iff.mp hadd
  have hpos : r.start.toNat < r.stop := by
    have hne : r.size.toNat ≠ 0 := fun h => hsize (BitVec.eq_of_toNat_eq h)
    unfold Region.stop
    omega
  refine ⟨?_, ?_⟩
  · exact List.pairwise_map.mpr
      (ordered_insertRegion hpos (fun q hq => hm.start_lt_stop hq) hclear hm.ordered)
  · intro e he
    obtain ⟨q, hq, rfl⟩ := List.mem_map.mp he
    rcases mem_insertRegion.mp hq with rfl | hq
    · exact hsize
    · exact Apart.size_ne_zero hm q.extent (List.mem_map_of_mem hq)

/-! ### Changing a store -/

/-- Changing what stores hold moves nothing. -/
@[simp] theorem extents_setStore (m : AddressMap δ) (r : Region) (s : Store) :
    (m.setStore r s).extents = m.extents := by
  unfold extents setStore
  rw [List.map_map]
  refine List.map_congr_left ?_
  intro q _
  show (if q.start = r.start then { q with backing := q.backing.withStore s } else q).extent =
    q.extent
  by_cases hstart : q.start = r.start
  · rw [if_pos hstart]
    unfold Region.extent
    cases q.backing <;> rfl
  · rw [if_neg hstart]

theorem Sound.setStore {m : AddressMap δ} (hm : m.Sound) (r : Region) (s : Store) :
    (m.setStore r s).Sound :=
  hm.of_extents (extents_setStore m r s)

theorem lookup_setStore {m : AddressMap δ} (hm : m.Sound) {r : Region} (hr : r ∈ m.regions)
    (s : Store) (addr : Word) :
    (m.setStore r s).lookup addr =
      if r.contains addr = true then some { r with backing := r.backing.withStore s }
      else m.lookup addr := by
  rw [(hm.setStore r s).lookup_eq_find?, AddressMap.setStore, List.find?_map]
  have hsame : ((fun q : Region => q.contains addr) ∘ fun q =>
      if q.start = r.start then { q with backing := q.backing.withStore s } else q) =
        fun q => q.contains addr := by
    funext q
    show (if q.start = r.start then { q with backing := q.backing.withStore s } else q).contains
      addr = q.contains addr
    by_cases hstart : q.start = r.start
    · rw [if_pos hstart]
      rfl
    · rw [if_neg hstart]
  rw [hsame, ← hm.lookup_eq_find?]
  by_cases hin : r.contains addr = true
  · rw [if_pos hin, hm.lookup_eq_some_iff.mpr ⟨hr, hin⟩]
    simp
  · rw [if_neg hin]
    cases hlookup : m.lookup addr with
    | none => rfl
    | some q =>
        obtain ⟨hq, hqin⟩ := hm.lookup_eq_some_iff.mp hlookup
        have hstart : q.start ≠ r.start := fun h => hin (hm.eq_of_start hr hq h ▸ hqin)
        simp [hstart]

/-- The bytes of a map after one of its stores was changed. -/
theorem byte?_setStore {m : AddressMap δ} (hm : m.Sound) {r : Region} (hr : r ∈ m.regions)
    {old : Store} (hold : r.backing.store? = some old) (s : Store) (addr : Word) :
    (m.setStore r s).byte? addr =
      if r.contains addr = true then some (s.byte (r.offset addr)) else m.byte? addr := by
  rw [(hm.setStore r s).byte?_eq, lookup_setStore hm hr]
  by_cases hin : r.contains addr = true
  · rw [if_pos hin, if_pos hin]
    show ({ r with backing := r.backing.withStore s } : Region).byte? addr = _
    unfold Region.byte? Region.offset
    cases hbacking : r.backing with
    | boot _ => rfl
    | ram _ => rfl
    | window =>
        rw [hbacking] at hold
        cases hold
  · rw [if_neg hin, if_neg hin, hm.byte?_eq]

/-! ### What no access moves -/

/-- Filling is loading one byte over and over. -/
theorem fill_eq_load (m : AddressMap δ) (a : Word) (len : Nat) (b : Byte) :
    m.fill a len b = m.load a (List.replicate len b) := by
  unfold fill load
  rw [List.length_replicate]
  cases m.storeRange? a len with
  | none => rfl
  | some found =>
      obtain ⟨r, s⟩ := found
      show Except.ok (m.setStore r _) = Except.ok (m.setStore r _)
      rw [Store.fill_eq_setBytes, Store.put_eq_setBytes]

theorem extents_load {m m' : AddressMap δ} {addr : Word} {data : List Byte}
    (hload : m.load addr data = .ok m') : m'.extents = m.extents := by
  unfold load at hload
  cases hrange : m.storeRange? addr data.length with
  | none =>
      rw [hrange] at hload
      cases hload
  | some found =>
      rw [hrange] at hload
      obtain rfl := Except.ok.inj hload
      exact extents_setStore m _ _

section
variable [DeviceAccess δ]

theorem extents_read (m : AddressMap δ) (addr : Word) : (m.read addr).2.extents = m.extents := by
  unfold read
  cases m.lookup addr.aligned with
  | none => rfl
  | some r =>
      cases hstore : r.backing.store? with
      | none =>
          simp only [hstore]
          rfl
      | some s => simp only [hstore]

theorem extents_write (m : AddressMap δ) (addr value : Word) (lanes : Lanes) :
    (m.write addr value lanes).extents = m.extents := by
  unfold write
  cases m.lookup addr.aligned with
  | none => rfl
  | some r =>
      cases hbacking : r.backing with
      | boot _ => simp only [hbacking]
      | ram s => simp only [hbacking, extents_setStore]
      | window =>
          simp only [hbacking]
          rfl

theorem extents_poke? {m m' : AddressMap δ} {addr : Word} {b : Byte}
    (hpoke : m.poke? addr b = some m') : m'.extents = m.extents := by
  unfold poke? at hpoke
  cases hlookup : m.lookup addr with
  | none =>
      simp only [hlookup] at hpoke
      cases hpoke
  | some r =>
      simp only [hlookup] at hpoke
      cases hstore : r.backing.store? with
      | none =>
          simp only [hstore] at hpoke
          obtain rfl := Option.some.inj hpoke
          rfl
      | some s =>
          simp only [hstore] at hpoke
          obtain rfl := Option.some.inj hpoke
          exact extents_setStore m r _

end

end AddressMap

end HomeComputer
