/-
What the host's bytes change.

The host writes byte by byte.  It finds the region by the byte, counts words from the start of the
region, and takes the lane from the address; `Region.spot` is where in the store the byte then
lies.  The hart rounds the address first, and finds a byte at its `Region.place`.  Where a region
begins with a word the two are one, and in any other they are not: what is written at one address
is shown at another.

Different addresses of a region have different spots, so bytes written one after the other stay
where they were written, and nothing else in any store changes (`AddressMap.Poked`).  That is put
together from single bytes, and so is what the devices behind windows are handed.
-/
import HomeComputer.Proofs.Memory.Flattening
import HomeComputer.Proofs.Memory.Footprint

namespace HomeComputer

/-! ### Stores -/

namespace Region

/-- Where a poke puts the byte for an address in the store of a region. -/
def spot (r : Region) (c : Word) : Nat := 4 * (r.offset c / 4) + c.lane

/-- In a region that begins with a word this is where the hart finds it. -/
theorem spot_eq_place {r : Region} (hstart : r.start.toNat % 4 = 0) {c : Word}
    (hin : r.contains c = true) : r.spot c = r.place c := by
  have hle := ((r.contains_iff c).mp hin).1
  unfold spot place offset
  rw [Word.toNat_aligned]
  omega

/-- Different addresses of a region have different spots. -/
theorem eq_of_spot {r : Region} {c c' : Word} (hin : r.contains c = true)
    (hin' : r.contains c' = true) (hspot : r.spot c = r.spot c') : c = c' := by
  have hle := ((r.contains_iff c).mp hin).1
  have hle' := ((r.contains_iff c').mp hin').1
  have hlane := c.lane_lt
  have hlane' := c'.lane_lt
  apply BitVec.eq_of_toNat_eq
  unfold spot offset at hspot
  unfold Word.lane at *
  omega

/-- `t` is the store `s` of a region after `data` was written from the address `n` on, as far as
that is in the region. -/
structure StorePoked (r : Region) (n : Nat) (data : List Byte) (s t : Store) : Prop where
  size : t.size = s.size
  /-- Every byte is in its spot, unless a later one has come round to the same address. -/
  written : ∀ i b, data[i]? = some b → r.contains (Word.addressFrom n i) = true →
    (∀ j, i < j → j < data.length → Word.addressFrom n j ≠ Word.addressFrom n i) →
    t.byte (r.spot (Word.addressFrom n i)) = b
  /-- All other bytes are as they were. -/
  kept : ∀ k, t.byte k ≠ s.byte k → ∃ i < data.length,
    r.contains (Word.addressFrom n i) = true ∧ k = r.spot (Word.addressFrom n i)

theorem storePoked_nil (r : Region) (n : Nat) (s : Store) : r.StorePoked n [] s s :=
  ⟨rfl, nofun, fun _ hk => absurd rfl hk⟩

/-- A byte that is not in the region changes nothing there. -/
theorem storePoked_outside {r : Region} {n : Nat} {c : Word} (hc : Word.addressFrom n 0 = c)
    (hout : r.contains c = false) (b : Byte) (s : Store) : r.StorePoked n [b] s s := by
  refine ⟨rfl, fun i b' hi hin _ => ?_, fun _ hk => absurd rfl hk⟩
  have hzero : i = 0 := by
    have hlt := (List.getElem?_eq_some_iff.mp hi).1
    simpa using hlt
  rw [hzero, hc, hout] at hin
  cases hin

theorem storePoked_write {r : Region} {n : Nat} {c : Word} (hc : Word.addressFrom n 0 = c)
    (hin : r.contains c = true) (b : Byte) (s : Store) : r.StorePoked n [b] s
      (s.write (r.offset c) (Store.repeated b) (Lanes.span c.lane 1)) := by
  have hlane := c.lane_lt
  have hbyte (k : Nat) : (s.write (r.offset c) (Store.repeated b) (Lanes.span c.lane 1)).byte k =
      if k = r.spot c then b else s.byte k := by
    have hk : k % 4 < 4 := Nat.mod_lt k (by decide)
    rw [Store.byte_write, Store.byte_repeated b hk, Lanes.getLsbD_span (by omega) hk]
    by_cases hspot : k = r.spot c
    · rw [if_pos hspot, if_pos]
      unfold spot at hspot
      refine ⟨by omega, ?_⟩
      rw [decide_eq_true_eq]
      omega
    · rw [if_neg hspot, if_neg]
      rintro ⟨hword, hplace⟩
      rw [decide_eq_true_eq] at hplace
      unfold spot at hspot
      omega
  refine ⟨rfl, fun i b' hi _ _ => ?_, fun k hk => ?_⟩
  · cases i with
    | zero =>
        rw [hc, hbyte, if_pos rfl]
        exact Option.some.inj hi
    | succ i => cases hi
  · by_cases hspot : k = r.spot c
    · refine ⟨0, Nat.one_pos, ?_, ?_⟩
      · rw [hc]
        exact hin
      · rw [hc]
        exact hspot
    · rw [hbyte, if_neg hspot] at hk
      exact absurd rfl hk

/-- A byte and then the bytes after it. -/
theorem StorePoked.cons {r : Region} {n : Nat} {b : Byte} {data : List Byte} {s t u : Store}
    (h : r.StorePoked n [b] s t) (h' : r.StorePoked (n + 1) data t u) :
    r.StorePoked n (b :: data) s u := by
  refine ⟨h'.size.trans h.size, fun i b' hi hin hlast => ?_, fun k hk => ?_⟩
  · cases i with
    | zero =>
        have hfirst := h.written 0 b rfl hin fun j hj hlt =>
          absurd hj (Nat.not_lt.mpr (Nat.le_of_lt_succ hlt))
        obtain rfl : b = b' := Option.some.inj hi
        rw [← hfirst]
        by_contra hchanged
        obtain ⟨j, hj, hinj, hspot⟩ := h'.kept _ hchanged
        rw [← Word.addressFrom_succ] at hinj hspot
        exact hlast (j + 1) (Nat.succ_pos j) (Nat.succ_lt_succ hj)
          (eq_of_spot hin hinj hspot).symm
    | succ i =>
        rw [Word.addressFrom_succ] at hin ⊢
        refine h'.written i b' hi hin fun j hj hlt => ?_
        have hnot := hlast (j + 1) (Nat.succ_lt_succ hj) (Nat.succ_lt_succ hlt)
        rwa [Word.addressFrom_succ, Word.addressFrom_succ] at hnot
  · by_cases hfirst : t.byte k = s.byte k
    · obtain ⟨i, hi, hin, hspot⟩ := h'.kept k (by rwa [hfirst])
      rw [← Word.addressFrom_succ] at hin hspot
      exact ⟨i + 1, Nat.succ_lt_succ hi, hin, hspot⟩
    · obtain ⟨i, hi, hin, hspot⟩ := h.kept k hfirst
      exact ⟨i, Nat.lt_of_lt_of_le hi (Nat.succ_le_succ (Nat.zero_le _)), hin, hspot⟩

/-- `q` is the region `r` after `data` was written from the address `n` on. -/
structure Poked (n : Nat) (data : List Byte) (r q : Region) : Prop where
  /-- Start, size and kind are as they were. -/
  extent : q.extent = r.extent
  store : ∀ s, r.backing.store? = some s →
    ∃ t, q.backing.store? = some t ∧ r.StorePoked n data s t

theorem Poked.contains_eq {n : Nat} {data : List Byte} {r q : Region} (h : Poked n data r q)
    (c : Word) : q.contains c = r.contains c := by
  show q.extent.contains c = r.extent.contains c
  rw [h.extent]

theorem Poked.start_eq {n : Nat} {data : List Byte} {r q : Region} (h : Poked n data r q) :
    q.start = r.start :=
  congrArg Extent.start h.extent

theorem poked_nil (n : Nat) (r : Region) : Poked n [] r r :=
  ⟨rfl, fun s hs => ⟨s, hs, r.storePoked_nil n s⟩⟩

theorem poked_outside {r : Region} {n : Nat} {c : Word} (hc : Word.addressFrom n 0 = c)
    (hout : r.contains c = false) (b : Byte) : Poked n [b] r r :=
  ⟨rfl, fun s hs => ⟨s, hs, storePoked_outside hc hout b s⟩⟩

theorem poked_window {r : Region} (hr : r.backing.store? = none) (n : Nat) (data : List Byte) :
    Poked n data r r :=
  ⟨rfl, fun s hs => by rw [hr] at hs; cases hs⟩

theorem poked_write {r : Region} {n : Nat} {c : Word} (hc : Word.addressFrom n 0 = c)
    (hin : r.contains c = true) (b : Byte) {s : Store} (hs : r.backing.store? = some s) :
    Poked n [b] r { r with
      backing := r.backing.withStore
        (s.write (r.offset c) (Store.repeated b) (Lanes.span c.lane 1)) } := by
  have hwrite := storePoked_write hc hin b s
  cases hbacking : r.backing with
  | window =>
      rw [hbacking] at hs
      cases hs
  | boot s' | ram s' =>
      rw [hbacking] at hs
      obtain rfl := Option.some.inj hs
      refine ⟨?_, fun s hs => ?_⟩
      · unfold extent
        rw [hbacking]
        rfl
      · rw [hbacking] at hs
        obtain rfl := Option.some.inj hs
        exact ⟨_, rfl, hwrite⟩

theorem Poked.cons {n : Nat} {b : Byte} {data : List Byte} {r q p : Region} (h : Poked n [b] r q)
    (h' : Poked (n + 1) data q p) : Poked n (b :: data) r p := by
  refine ⟨h'.extent.trans h.extent, fun s hs => ?_⟩
  obtain ⟨t, ht, hfirst⟩ := h.store s hs
  obtain ⟨u, hu, hrest⟩ := h'.store t ht
  refine ⟨u, hu, hfirst.cons ?_⟩
  have hspot (c : Word) : q.spot c = r.spot c := by
    unfold spot offset
    rw [h.start_eq]
  refine ⟨hrest.size, fun i b' hi hin hlast => ?_, fun k hk => ?_⟩
  · rw [← hspot]
    exact hrest.written i b' hi ((h.contains_eq _).trans hin) hlast
  · obtain ⟨i, hi, hin, hplace⟩ := hrest.kept k hk
    exact ⟨i, hi, (h.contains_eq _).symm.trans hin, hplace.trans (hspot _)⟩

theorem Poked.map_extent {n : Nat} {data : List Byte} {rs qs : List Region}
    (h : List.Forall₂ (Poked n data) rs qs) : qs.map Region.extent = rs.map Region.extent := by
  induction h with
  | nil => rfl
  | cons hr _ ih => rw [List.map_cons, List.map_cons, hr.extent, ih]

theorem forall₂_poked_cons {n : Nat} {b : Byte} {data : List Byte} {rs qs ps : List Region}
    (h : List.Forall₂ (Poked n [b]) rs qs) (h' : List.Forall₂ (Poked (n + 1) data) qs ps) :
    List.Forall₂ (Poked n (b :: data)) rs ps := by
  induction h generalizing ps with
  | nil =>
      cases h'
      exact .nil
  | cons hr _ ih =>
      cases h' with
      | cons hq hrest => exact .cons (hr.cons hq) (ih hrest)

end Region

/-! ### Address maps -/

namespace AddressMap

variable {δ : Type}

/-- There is an address `i` bytes after `addr`, and some region contains it. -/
def Mapped (m : AddressMap δ) (addr : Word) (i : Nat) : Prop :=
  ∃ c, addr.after? i = some c ∧ ∃ r ∈ m.regions, r.contains c = true

section

variable [DeviceAccess δ]

/-- `m'` is the map `m` after `data` was written from the address `n` on. -/
structure Poked (n : Nat) (data : List Byte) (m m' : AddressMap δ) : Prop where
  /-- The table has the same regions in the same order. -/
  regions : List.Forall₂ (Region.Poked n data) m.regions m'.regions
  /-- Every byte that is in a window was handed to the devices there, and nothing else. -/
  devices : m'.devices = FlatMemory.deliver m.extents m.devices n data
  alignment : m'.alignment = m.alignment

variable {m m' : AddressMap δ} {n : Nat} {data : List Byte}

theorem Poked.extents (h : Poked n data m m') : m'.extents = m.extents :=
  Region.Poked.map_extent h.regions

theorem poked_nil (m : AddressMap δ) (n : Nat) : Poked n [] m m :=
  ⟨List.forall₂_same.mpr fun r _ => Region.poked_nil n r, rfl, rfl⟩

/-- One byte that is taken. -/
theorem poked_poke? (hm : m.Sound) {c : Word} (hc : Word.addressFrom n 0 = c) {b : Byte}
    (hpoke : m.poke? c b = some m') : Poked n [b] m m' := by
  have hout {r q : Region} (hr : r ∈ m.regions) (hin : r.contains c = true) (hq : q ∈ m.regions)
      (hne : q ≠ r) : q.contains c = false := by
    rw [Bool.eq_false_iff]
    exact fun hqin => hne (hm.eq_of_contains hq hr hqin hin)
  unfold poke? at hpoke
  cases found hm c with
  | nothing hlookup hwindow hbyte =>
      rw [hlookup] at hpoke
      cases hpoke
  | store r s hlookup hstore hwindow hbyte =>
      obtain ⟨hr, hin⟩ := hm.lookup_eq_some_iff.mp hlookup
      simp only [hlookup, hstore] at hpoke
      obtain rfl := Option.some.inj hpoke
      refine ⟨List.forall₂_map_right_iff.mpr (List.forall₂_same.mpr fun q hq => ?_), ?_, rfl⟩
      · by_cases hstart : q.start = r.start
        · obtain rfl := hm.eq_of_start hr hq hstart
          rw [if_pos rfl]
          exact Region.poked_write hc hin b hstore
        · rw [if_neg hstart]
          exact Region.poked_outside hc (hout hr hin hq fun h => hstart (by rw [h])) b
      · have hwindow' : Extent.window? m.extents c = none := hwindow
        simp only [FlatMemory.deliver, show BitVec.ofNat 32 n = c from hc, hwindow']
        rfl
  | window r hlookup hstore hwindow hbyte =>
      obtain ⟨hr, hin⟩ := hm.lookup_eq_some_iff.mp hlookup
      simp only [hlookup, hstore] at hpoke
      obtain rfl := Option.some.inj hpoke
      refine ⟨List.forall₂_same.mpr fun q hq => ?_, ?_, rfl⟩
      · by_cases hqr : q = r
        · rw [hqr]
          exact Region.poked_window hstore _ _
        · exact Region.poked_outside hc (hout hr hin hq hqr) b
      · have hwindow' : Extent.window? m.extents c = some r.start := hwindow
        simp only [FlatMemory.deliver, show BitVec.ofNat 32 n = c from hc, hwindow']

/-- A byte and then the bytes after it. -/
theorem Poked.cons {b : Byte} {m'' : AddressMap δ} (h : Poked n [b] m m')
    (h' : Poked (n + 1) data m' m'') : Poked n (b :: data) m m'' := by
  refine ⟨Region.forall₂_poked_cons h.regions h'.regions, ?_, h'.alignment.trans h.alignment⟩
  rw [h'.devices, h.extents, h.devices, ← FlatMemory.deliver_cons]

/-- What is shown in a store is the byte in its place, before and after. -/
theorem Poked.exists_byte_peek (hm : m.Sound) (h : Poked n data m m') {r : Region}
    (hr : r ∈ m.regions) (hkind : r.backing.kind ≠ .window) {c : Word}
    (hin : r.contains c.aligned = true) :
    ∃ s t, r.StorePoked n data s t ∧
      (m.peek c).map (·.byte c.lane) = some (s.byte (r.place c)) ∧
      (m'.peek c).map (·.byte c.lane) = some (t.byte (r.place c)) := by
  obtain ⟨q, hq, hpoked⟩ := exists_of_forall₂ h.regions hr
  obtain ⟨s, hs⟩ : ∃ s, r.backing.store? = some s := by
    rw [← Option.isSome_iff_exists, Option.isSome_iff_ne_none, Ne, ← r.backing.kind_eq_window_iff]
    exact hkind
  obtain ⟨t, ht, hstore⟩ := hpoked.store s hs
  have hplace : q.place c = r.place c := by
    unfold Region.place Region.offset
    rw [hpoked.start_eq]
  refine ⟨s, t, hstore, byte_peek hm hr hs hin, ?_⟩
  rw [← hplace]
  exact byte_peek (hm.of_extents h.extents) hq ht ((hpoked.contains_eq _).trans hin)

/-- Where a store shows another byte than before, its place is the spot of one that was written. -/
theorem Poked.spot_of_peek (hm : m.Sound) (h : Poked n data m m') {r : Region}
    (hr : r ∈ m.regions) (hkind : r.backing.kind ≠ .window) {c : Word}
    (hin : r.contains c.aligned = true)
    (hne : (m'.peek c).map (·.byte c.lane) ≠ (m.peek c).map (·.byte c.lane)) :
    ∃ i < data.length, r.contains (Word.addressFrom n i) = true ∧
      r.place c = r.spot (Word.addressFrom n i) := by
  obtain ⟨s, t, hstore, hbefore, hafter⟩ := h.exists_byte_peek hm hr hkind hin
  rw [hbefore, hafter] at hne
  exact hstore.kept _ fun hbyte => hne (congrArg some hbyte)

/-- In a store that begins with a word that is the address itself. -/
theorem Poked.eq_of_peek (hm : m.Sound) (h : Poked n data m m') {r : Region}
    (hr : r ∈ m.regions) (hkind : r.backing.kind ≠ .window) (hstart : r.start.toNat % 4 = 0)
    {c : Word} (hin : r.contains c.aligned = true)
    (hne : (m'.peek c).map (·.byte c.lane) ≠ (m.peek c).map (·.byte c.lane)) :
    ∃ i < data.length, c = Word.addressFrom n i := by
  obtain ⟨i, hi, hini, hspot⟩ := h.spot_of_peek hm hr hkind hin hne
  rw [Region.spot_eq_place hstart hini] at hspot
  exact ⟨i, hi, Region.eq_of_place hin (Region.contains_aligned hstart hini) hspot⟩

end

end AddressMap

end HomeComputer
