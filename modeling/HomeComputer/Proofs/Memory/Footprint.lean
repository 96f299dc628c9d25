/-
What accesses can change.

A hart reaches memory by reads, and by writes whose lanes say which bytes are meant.  `Accessed`
is a chain of these: it keeps the addresses that the lanes of its writes name, and what a step of
the hart does to its bus is such a chain.  Loads and fetches add reads to a chain, and a store adds
writes to the bytes of its range and to no other, also where the range runs over the end of a word
or of the address space.

On an address map a chain keeps the table of regions and everything in boot stores, and changes
bytes of RAM at the addresses named alone (`AddressMap.Written`).  On the standard devices it
appends to what was sent, if data of the link is among them, or resets the link, if its control is
(`Devices.Sent`).
-/
import HomeComputer.Proofs.Memory.Access
import HomeComputer.Proofs.Memory.Flattening

namespace HomeComputer

/-! ### Chains of accesses -/

section

variable {β : Type} [Bus β]

/-- `b'` comes about from `b` by reads, and by writes of lanes at addresses of `meant` alone. -/
inductive Accessed (meant : Word → Prop) (b : β) : β → Prop
  | refl : Accessed meant b b
  | read {b' : β} (h : Accessed meant b b') (addr : Word) : Accessed meant b (Bus.read b' addr).2
  | write {b' : β} (h : Accessed meant b b') {base : Word} (hbase : base.aligned = base)
      (value : Word) {lanes : Lanes}
      (hlanes : ∀ c : Word, c.aligned = base → lanes.getLsbD c.lane = true → meant c) :
      Accessed meant b (Bus.write b' base value lanes)

namespace Accessed

variable {meant : Word → Prop} {b b' : β}

theorem mono {meant' : Word → Prop} (h : Accessed meant b b') (hmeant : ∀ c, meant c → meant' c) :
    Accessed meant' b b' := by
  induction h with
  | refl => exact .refl
  | read _ addr ih => exact ih.read addr
  | write _ hbase value hlanes ih =>
      exact ih.write hbase value fun c hword hlane => hmeant c (hlanes c hword hlane)

theorem fetch (h : Accessed meant b b') (pc : Word) : Accessed meant b (Access.fetch b' pc).2 :=
  h.read pc.aligned

theorem load (h : Accessed meant b b') (addr : Word) (w : Width) :
    Accessed meant b (Access.load b' addr w).2 := by
  generalize ha : (Bus.alignment b').place addr w = a
  by_cases hfits : a.lane + w.bytes ≤ 4
  · rw [Access.load_of_fits b' addr w ha hfits]
    exact h.read a.aligned
  · rw [Access.load_of_exceeds b' addr w ha (by omega)]
    exact (h.read a.aligned).read (a.aligned + 4#32)

/-- A store writes the bytes of its range. -/
theorem store (h : Accessed meant b b') {addr : Word} (value : Word) {w : Width}
    (hmeant : ∀ i < w.bytes,
      meant (Word.addressFrom ((Bus.alignment b').start addr w) i)) :
    Accessed meant b (Access.store b' addr value w) := by
  have hle := w.bytes_le
  rw [← Alignment.toNat_place] at hmeant
  generalize ha : (Bus.alignment b').place addr w = a at hmeant
  have hlane := a.lane_lt
  by_cases hfits : a.lane + w.bytes ≤ 4
  · rw [Access.store_of_fits b' addr value w ha hfits]
    refine h.write a.aligned_aligned _ fun c hword hc => ?_
    rw [Lanes.getLsbD_span hfits c.lane_lt, decide_eq_true_eq] at hc
    rw [Word.eq_addressFrom_of_aligned hword hc.1]
    exact hmeant _ (by omega)
  · rw [Access.store_of_exceeds b' addr value w ha (by omega)]
    refine (h.write a.aligned_aligned _ fun c hword hc => ?_).write a.aligned_next _
      fun c hword hc => ?_
    · rw [Lanes.getLsbD_span (by omega) c.lane_lt, decide_eq_true_eq] at hc
      rw [Word.eq_addressFrom_of_aligned hword hc.1]
      exact hmeant _ (by omega)
    · rw [Lanes.getLsbD_span (by omega) c.lane_lt, decide_eq_true_eq] at hc
      rw [Word.eq_addressFrom_of_next hword]
      exact hmeant _ (by omega)

end Accessed

end

/-- Every lane of a word is at some address. -/
theorem Word.exists_of_lane {base : Word} (hbase : base.aligned = base) {lane : Nat}
    (hlane : lane < 4) : ∃ c : Word, c.aligned = base ∧ c.lane = lane := by
  have hzero : base.lane = 0 := by
    have hnat := congrArg BitVec.toNat hbase
    rw [toNat_aligned] at hnat
    unfold Word.lane
    omega
  obtain ⟨hword, hplace⟩ := base.addressFrom_of_lt (d := lane) (by omega)
  exact ⟨_, hword.trans hbase, by omega⟩

/-! ### Regions -/

namespace Region

/-- Where the byte at an address is in the store of a region, as the hart sees it: the word is
counted from the start of the region, and the byte has its lane. -/
def place (r : Region) (c : Word) : Nat := 4 * (r.offset c.aligned / 4) + c.lane

/-- Different addresses of a region have different places. -/
theorem eq_of_place {r : Region} {c c' : Word} (hin : r.contains c.aligned = true)
    (hin' : r.contains c'.aligned = true) (hplace : r.place c = r.place c') : c = c' := by
  have hle := ((r.contains_iff _).mp hin).1
  have hle' := ((r.contains_iff _).mp hin').1
  have hlane := c.lane_lt
  have hlane' := c'.lane_lt
  apply BitVec.eq_of_toNat_eq
  unfold place offset at hplace
  rw [Word.toNat_aligned] at hle hplace
  rw [Word.toNat_aligned] at hle' hplace
  unfold Word.lane at *
  omega

/-- `q` is the region `r` after bytes of its RAM changed, at addresses of `meant` alone. -/
structure Written (meant : Word → Prop) (r q : Region) : Prop where
  /-- Start, size and kind are as they were. -/
  extent : q.extent = r.extent
  /-- What is no RAM is as it was with all it holds. -/
  fixed : r.backing.kind ≠ .ram → q = r
  size : ∀ s s', r.backing = .ram s → q.backing = .ram s' → s'.size = s.size
  /-- A byte of RAM that changed is the one that the hart sees at an address of `meant`. -/
  bytes : ∀ s s', r.backing = .ram s → q.backing = .ram s' → ∀ k, s'.byte k ≠ s.byte k →
    ∃ c, meant c ∧ r.contains c.aligned = true ∧ k = r.place c

namespace Written

variable {meant : Word → Prop} {r q p : Region}

theorem refl (meant : Word → Prop) (r : Region) : Written meant r r := by
  have hsame {s s' : Store} (hs : r.backing = .ram s) (hs' : r.backing = .ram s') : s' = s :=
    Backing.ram.inj (hs'.symm.trans hs)
  refine ⟨rfl, fun _ => rfl, fun s s' hs hs' => by rw [hsame hs hs'], ?_⟩
  intro s s' hs hs' k hk
  rw [hsame hs hs'] at hk
  exact absurd rfl hk

theorem mono {meant' : Word → Prop} (h : Written meant r q) (hmeant : ∀ c, meant c → meant' c) :
    Written meant' r q := by
  refine ⟨h.extent, h.fixed, h.size, fun s s' hs hs' k hk => ?_⟩
  obtain ⟨c, hc, hplace⟩ := h.bytes s s' hs hs' k hk
  exact ⟨c, hmeant c hc, hplace⟩

/-- The RAM of a region is still RAM. -/
theorem exists_ram (h : Written meant r q) {s : Store} (hs : r.backing = .ram s) :
    ∃ s', q.backing = .ram s' := by
  have hkind : q.backing.kind = r.backing.kind := congrArg Extent.kind h.extent
  rw [hs] at hkind
  cases hq : q.backing with
  | ram s' => exact ⟨s', rfl⟩
  | boot s' =>
      rw [hq] at hkind
      cases hkind
  | window =>
      rw [hq] at hkind
      cases hkind

theorem contains_eq (h : Written meant r q) (c : Word) : q.contains c = r.contains c := by
  have hstart : q.start = r.start := congrArg Extent.start h.extent
  have hsize : q.size = r.size := congrArg Extent.size h.extent
  unfold contains stop
  rw [hstart, hsize]

theorem place_eq (h : Written meant r q) (c : Word) : q.place c = r.place c := by
  have hstart : q.start = r.start := congrArg Extent.start h.extent
  unfold place offset
  rw [hstart]

theorem trans (h : Written meant r q) (h' : Written meant q p) : Written meant r p := by
  refine ⟨h'.extent.trans h.extent, fun hkind => ?_, fun s s'' hs hs'' => ?_, ?_⟩
  · have hfirst := h.fixed hkind
    subst hfirst
    exact h'.fixed hkind
  · obtain ⟨s', hs'⟩ := h.exists_ram hs
    exact (h'.size s' s'' hs' hs'').trans (h.size s s' hs hs')
  · intro s s'' hs hs'' k hk
    obtain ⟨s', hs'⟩ := h.exists_ram hs
    by_cases hfirst : s'.byte k = s.byte k
    · obtain ⟨c, hc, hin, hplace⟩ := h'.bytes s' s'' hs' hs'' k (by rwa [hfirst])
      exact ⟨c, hc, (h.contains_eq _).symm.trans hin, hplace.trans (h.place_eq c)⟩
    · exact h.bytes s s' hs hs' k hfirst

theorem map_extent {rs qs : List Region} (h : List.Forall₂ (Written meant) rs qs) :
    qs.map Region.extent = rs.map Region.extent := by
  induction h with
  | nil => rfl
  | cons hr _ ih => rw [List.map_cons, List.map_cons, hr.extent, ih]

theorem forall₂_trans {rs qs ps : List Region} (h : List.Forall₂ (Written meant) rs qs)
    (h' : List.Forall₂ (Written meant) qs ps) : List.Forall₂ (Written meant) rs ps := by
  induction h generalizing ps with
  | nil => exact h'
  | cons hr _ ih =>
      cases h' with
      | cons hq hrest => exact .cons (hr.trans hq) (ih hrest)

end Written

/-- A write to a word of RAM changes the lanes meant. -/
theorem written_write {meant : Word → Prop} {r : Region} {s : Store} (hs : r.backing = .ram s)
    {base : Word} (hbase : base.aligned = base) (hin : r.contains base = true) (value : Word)
    {lanes : Lanes}
    (hlanes : ∀ c : Word, c.aligned = base → lanes.getLsbD c.lane = true → meant c) :
    Written meant r { r with backing := .ram (s.write (r.offset base) value lanes) } := by
  have hold {s₀ : Store} (h : r.backing = .ram s₀) : s₀ = s := Backing.ram.inj (h.symm.trans hs)
  have hnew {s₁ : Store} (h : Backing.ram (s.write (r.offset base) value lanes) = .ram s₁) :
      s₁ = s.write (r.offset base) value lanes := (Backing.ram.inj h).symm
  have hsize : (s.write (r.offset base) value lanes).size = s.size := rfl
  refine ⟨?_, fun hkind => absurd (by rw [hs]; rfl) hkind, fun s₀ s₁ h₀ h₁ => ?_, ?_⟩
  · unfold extent
    rw [hs]
    rfl
  · rw [hold h₀, hnew h₁, hsize]
  · intro s₀ s₁ h₀ h₁ k hk
    rw [hold h₀, hnew h₁, Store.byte_write] at hk
    by_cases hmeant : k / 4 = r.offset base / 4 ∧ lanes.getLsbD (k % 4) = true
    · obtain ⟨c, hword, hlane⟩ := Word.exists_of_lane hbase (Nat.mod_lt k (by decide : 0 < 4))
      refine ⟨c, hlanes c hword (by rw [hlane]; exact hmeant.2), by rw [hword]; exact hin, ?_⟩
      unfold place
      rw [hword, hlane]
      omega
    · rw [if_neg hmeant] at hk
      exact absurd rfl hk

end Region

/-! ### Address maps -/

/-- Every member of a list has its counterpart in one that is related to it. -/
theorem exists_of_forall₂ {α β : Type} {R : α → β → Prop} {as : List α} {bs : List β}
    (h : List.Forall₂ R as bs) {a : α} (ha : a ∈ as) : ∃ b ∈ bs, R a b := by
  obtain ⟨i, rfl⟩ := List.mem_iff_get.mp ha
  have hi : i < bs.length := h.length_eq ▸ i.isLt
  exact ⟨bs.get ⟨i, hi⟩, List.get_mem _ _, h.get i.isLt hi⟩

namespace AddressMap

variable {δ : Type}

/-- `m'` is the map `m` after bytes of RAM changed, at addresses of `meant` alone; the devices may
have changed too. -/
structure Written (meant : Word → Prop) (m m' : AddressMap δ) : Prop where
  /-- The table has the same regions in the same order. -/
  regions : List.Forall₂ (Region.Written meant) m.regions m'.regions
  alignment : m'.alignment = m.alignment

namespace Written

variable {meant : Word → Prop} {m m' m'' : AddressMap δ}

theorem of_regions (meant : Word → Prop) (hregions : m'.regions = m.regions)
    (halignment : m'.alignment = m.alignment) : Written meant m m' := by
  refine ⟨?_, halignment⟩
  rw [hregions]
  exact List.forall₂_same.mpr fun r _ => Region.Written.refl meant r

theorem mono {meant' : Word → Prop} (h : Written meant m m') (hmeant : ∀ c, meant c → meant' c) :
    Written meant' m m' :=
  ⟨h.regions.imp fun _ _ hr => hr.mono hmeant, h.alignment⟩

theorem extents (h : Written meant m m') : m'.extents = m.extents :=
  Region.Written.map_extent h.regions

theorem trans (h : Written meant m m') (h' : Written meant m' m'') : Written meant m m'' :=
  ⟨Region.Written.forall₂_trans h.regions h'.regions, h'.alignment.trans h.alignment⟩

/-- A region is still there. -/
theorem exists_region (h : Written meant m m') {r : Region} (hr : r ∈ m.regions) :
    ∃ q ∈ m'.regions, Region.Written meant r q :=
  exists_of_forall₂ h.regions hr

end Written

/-- Changing the RAM of a region changes no other. -/
theorem written_setStore {meant : Word → Prop} {m : AddressMap δ} (hm : m.Sound) {r : Region}
    (hr : r ∈ m.regions) {s s' : Store} (hs : r.backing = .ram s)
    (hwritten : Region.Written meant r { r with backing := .ram s' }) :
    Written meant m (m.setStore r s') := by
  refine ⟨List.forall₂_map_right_iff.mpr (List.forall₂_same.mpr fun q hq => ?_), rfl⟩
  by_cases hstart : q.start = r.start
  · obtain rfl := hm.eq_of_start hr hq hstart
    rw [if_pos rfl, hs]
    exact hwritten
  · rw [if_neg hstart]
    exact Region.Written.refl meant q

section
variable [DeviceAccess δ]

/-- The byte that is shown at an address of a store. -/
theorem byte_peek {m : AddressMap δ} (hm : m.Sound) {r : Region} (hr : r ∈ m.regions) {s : Store}
    (hs : r.backing.store? = some s) {c : Word} (hin : r.contains c.aligned = true) :
    (m.peek c).map (·.byte c.lane) = some (s.byte (r.place c)) := by
  have hlookup : m.lookup c.aligned = some r := hm.lookup_eq_some_iff.mpr ⟨hr, hin⟩
  have hlane := c.lane_lt
  have hword : r.place c / 4 = r.offset c.aligned / 4 := by unfold Region.place; omega
  have hplace : r.place c % 4 = c.lane := by unfold Region.place; omega
  unfold peek
  simp only [hlookup, hs, Option.map_some]
  unfold Store.byte Store.word
  rw [hword, hplace]

/-- Where the byte shown at an address outside windows is another than before, it is a byte of RAM
and the address is among those meant. -/
theorem Written.meant_of_peek {meant : Word → Prop} {m m' : AddressMap δ} (hm : m.Sound)
    (h : Written meant m m') {r : Region} (hr : r ∈ m.regions) (hkind : r.backing.kind ≠ .window)
    {c : Word} (hin : r.contains c.aligned = true)
    (hne : (m'.peek c).map (·.byte c.lane) ≠ (m.peek c).map (·.byte c.lane)) :
    r.backing.kind = .ram ∧ meant c := by
  obtain ⟨q, hq, hwritten⟩ := h.exists_region hr
  have hm' : m'.Sound := hm.of_extents h.extents
  have hqin : q.contains c.aligned = true := (hwritten.contains_eq _).trans hin
  cases hbacking : r.backing with
  | window =>
      rw [hbacking] at hkind
      exact absurd rfl hkind
  | boot s =>
      have hsame : q = r := hwritten.fixed (by rw [hbacking]; exact Kind.noConfusion)
      subst hsame
      have hs : q.backing.store? = some s := by rw [hbacking]; rfl
      rw [byte_peek hm' hq hs hin, byte_peek hm hr hs hin] at hne
      exact absurd rfl hne
  | ram s =>
      obtain ⟨s', hs'⟩ := hwritten.exists_ram hbacking
      have hstore : r.backing.store? = some s := by rw [hbacking]; rfl
      have hstore' : q.backing.store? = some s' := by rw [hs']; rfl
      rw [byte_peek hm' hq hstore' hqin, byte_peek hm hr hstore hin, hwritten.place_eq] at hne
      obtain ⟨c', hc', hin', hplace⟩ :=
        hwritten.bytes s s' hbacking hs' (r.place c) fun hbyte => hne (congrArg some hbyte)
      obtain rfl := Region.eq_of_place hin hin' hplace
      exact ⟨rfl, hc'⟩

/-- A read leaves the map as it was, but for what a device handed over. -/
theorem read_cases (m : AddressMap δ) (addr : Word) :
    (m.read addr).2 = m ∨ ∃ r : Region, (m.read addr).2 =
      { m with devices := (DeviceAccess.read m.devices r.start addr.aligned).2 } := by
  unfold read
  cases m.lookup addr.aligned with
  | none => exact .inl rfl
  | some r =>
      cases hstore : r.backing.store? with
      | none =>
          simp only [hstore]
          exact .inr ⟨r, rfl⟩
      | some s => exact .inl (by simp only [hstore])

/-- A write is dropped, or taken by a store of RAM, or by the devices. -/
theorem write_cases (m : AddressMap δ) (addr value : Word) (lanes : Lanes) :
    m.write addr value lanes = m ∨
    (∃ r s, m.lookup addr.aligned = some r ∧ r.backing = .ram s ∧
      m.write addr value lanes = m.setStore r (s.write (r.offset addr.aligned) value lanes)) ∨
    ∃ r : Region, m.write addr value lanes =
      { m with devices := DeviceAccess.write m.devices r.start addr.aligned value lanes } := by
  unfold write
  cases m.lookup addr.aligned with
  | none => exact .inl rfl
  | some r =>
      cases hbacking : r.backing with
      | boot s => exact .inl (by simp only [hbacking])
      | ram s =>
          simp only [hbacking]
          exact .inr (.inl ⟨r, s, rfl, hbacking, rfl⟩)
      | window =>
          simp only [hbacking]
          exact .inr (.inr ⟨r, rfl⟩)

theorem written_read (meant : Word → Prop) (m : AddressMap δ) (addr : Word) :
    Written meant m (m.read addr).2 := by
  rcases m.read_cases addr with hread | ⟨r, hread⟩
  · rw [hread]
    exact .of_regions meant rfl rfl
  · rw [hread]
    exact .of_regions meant rfl rfl

theorem written_write {meant : Word → Prop} {m : AddressMap δ} (hm : m.Sound) {base : Word}
    (hbase : base.aligned = base) (value : Word) {lanes : Lanes}
    (hlanes : ∀ c : Word, c.aligned = base → lanes.getLsbD c.lane = true → meant c) :
    Written meant m (m.write base value lanes) := by
  have hcases := m.write_cases base value lanes
  rw [hbase] at hcases
  rcases hcases with hwrite | ⟨r, s, hlookup, hs, hwrite⟩ | ⟨r, hwrite⟩
  · rw [hwrite]
    exact .of_regions meant rfl rfl
  · obtain ⟨hr, hin⟩ := hm.lookup_eq_some_iff.mp hlookup
    rw [hwrite]
    exact written_setStore hm hr hs (Region.written_write hs hbase hin value hlanes)
  · rw [hwrite]
    exact .of_regions meant rfl rfl

/-- **What a chain of accesses changes.**  Regions stay where they are, and of what they hold only
bytes of RAM change, at addresses that writes of the chain meant. -/
theorem written_of_accessed {meant : Word → Prop} {m m' : AddressMap δ} (hm : m.Sound)
    (h : Accessed meant m m') : Written meant m m' := by
  induction h with
  | refl => exact .of_regions meant rfl rfl
  | read _ addr ih => exact ih.trans (written_read meant _ addr)
  | write _ hbase value hlanes ih =>
      exact ih.trans (written_write (hm.of_extents ih.extents) hbase value hlanes)

end

end AddressMap

/-! ### The standard devices -/

namespace Devices

/-- What the guest has sent is what it had sent in `d` and more behind it, or the link was reset
in between; more only if data of the link is among the addresses of `meant`, and reset only if the
byte of its control is that asks for it. -/
def Sent (meant : Word → Prop) (d d' : Devices) : Prop :=
  ∃ kept new : List Byte, d'.sent.toList = kept ++ new ∧
    (kept = d.sent.toList ∨ kept = [] ∧ meant (linkControl + 3#32)) ∧
    (new ≠ [] → meant linkData)

namespace Sent

variable {meant : Word → Prop} {d d' d'' : Devices}

theorem of_sent (meant : Word → Prop) (hsent : d'.sent = d.sent) : Sent meant d d' :=
  ⟨d.sent.toList, [], by rw [hsent, List.append_nil], .inl rfl, fun h => absurd rfl h⟩

theorem trans (h : Sent meant d d') (h' : Sent meant d' d'') : Sent meant d d'' := by
  obtain ⟨kept, new, hsent, hkept, hnew⟩ := h
  obtain ⟨kept', new', hsent', hkept', hnew'⟩ := h'
  rcases hkept' with rfl | ⟨rfl, hreset⟩
  · refine ⟨kept, new ++ new', by rw [hsent', hsent, List.append_assoc], hkept, fun hne => ?_⟩
    by_cases hfirst : new = []
    · exact hnew' (fun hsecond => hne (by rw [hfirst, hsecond]; rfl))
    · exact hnew hfirst
  · exact ⟨[], new', hsent', .inr ⟨rfl, hreset⟩, hnew'⟩

end Sent

theorem sent_read (meant : Word → Prop) (d : Devices) (addr : Word) :
    Sent meant d (d.read addr).2 := by
  refine .of_sent meant ?_
  unfold read
  split
  · rfl
  · split
    · rfl
    · rfl

theorem sent_write {meant : Word → Prop} (d : Devices) {base : Word} (value : Word) {lanes : Lanes}
    (hlanes : ∀ c : Word, c.aligned = base → lanes.getLsbD c.lane = true → meant c) :
    Sent meant d (d.write base value lanes) := by
  unfold write
  by_cases hdata : base = linkData ∧ lanes.getLsbD 0
  · obtain ⟨rfl, hlane⟩ := hdata
    rw [if_pos ⟨rfl, hlane⟩]
    exact ⟨d.sent.toList, [Word.byte value 0], Queue.toList_push _ _, .inl rfl,
      fun _ => hlanes linkData (by decide) hlane⟩
  · rw [if_neg hdata]
    by_cases hcontrol : base = linkControl ∧ lanes.getLsbD 3 ∧ value &&& linkReset ≠ 0#32
    · obtain ⟨rfl, hlane, hreset⟩ := hcontrol
      rw [if_pos ⟨rfl, hlane, hreset⟩]
      exact ⟨[], [], rfl, .inr ⟨rfl, hlanes _ (by decide) hlane⟩, fun h => absurd rfl h⟩
    · rw [if_neg hcontrol]
      exact .of_sent meant rfl

end Devices

namespace AddressMap

variable {meant : Word → Prop}

theorem sent_read (m : AddressMap Devices) (addr : Word) :
    Devices.Sent meant m.devices (m.read addr).2.devices := by
  rcases m.read_cases addr with hread | ⟨r, hread⟩
  · rw [hread]
    exact .of_sent meant rfl
  · rw [hread]
    exact Devices.sent_read meant m.devices addr.aligned

theorem sent_write (m : AddressMap Devices) {base : Word} (hbase : base.aligned = base)
    (value : Word) {lanes : Lanes}
    (hlanes : ∀ c : Word, c.aligned = base → lanes.getLsbD c.lane = true → meant c) :
    Devices.Sent meant m.devices (m.write base value lanes).devices := by
  have hcases := m.write_cases base value lanes
  rw [hbase] at hcases
  rcases hcases with hwrite | ⟨r, s, -, -, hwrite⟩ | ⟨r, hwrite⟩
  · rw [hwrite]
    exact .of_sent meant rfl
  · rw [hwrite]
    exact .of_sent meant rfl
  · rw [hwrite]
    exact Devices.sent_write m.devices value hlanes

/-- What a chain of accesses sends to the host. -/
theorem sent_of_accessed {m m' : AddressMap Devices} (h : Accessed meant m m') :
    Devices.Sent meant m.devices m'.devices := by
  induction h with
  | refl => exact .of_sent meant rfl
  | read _ addr ih => exact ih.trans (sent_read _ addr)
  | write _ hbase value hlanes ih => exact ih.trans (sent_write _ hbase value hlanes)

end AddressMap

end HomeComputer
