/-
Tables that come about by adding regions.

A region stands for the numbers from its start on, `interval`, which may reach or pass the end
of the address space.  `addRegion` compares starts and ends; for regions that are not empty
this is the question whether the intervals meet (`overlaps_eq_false_iff`), and an empty one is
refused before it is compared with any other.

What `Regions` says of sound maps then holds of every table that begins empty and is offered
one region after the other, whatever they are: none is refused that would fit, and none that
was accepted gives way.  An insertion puts a region at its place in the order of the starts,
and a strict order leaves one way to list the same regions.  So a table does not remember the
order in which its regions came.
-/
import HomeComputer.Proofs.Memory.Regions
import Mathlib.Data.List.Sort
import Mathlib.Order.CompletePartialOrder
import Mathlib.Order.Interval.Set.Disjoint

namespace HomeComputer

/-! ### Intervals -/

namespace Region

/-- The numbers from the start of a region up to its end, as they are and not as addresses. -/
def interval (r : Region) : Set Nat := Set.Ico r.start.toNat (r.start.toNat + r.size.toNat)

theorem mem_interval {r : Region} {n : Nat} :
    n ∈ r.interval ↔ r.start.toNat ≤ n ∧ n < r.stop := Iff.rfl

theorem contains_iff_mem_interval {r : Region} {addr : Word} :
    r.contains addr = true ↔ addr.toNat ∈ r.interval := r.contains_iff addr

theorem start_lt_stop_iff {r : Region} : r.start.toNat < r.stop ↔ r.size ≠ 0#32 := by
  have hzero : r.size.toNat = 0 ↔ r.size = 0#32 :=
    ⟨fun h => BitVec.eq_of_toNat_eq h, fun h => by rw [h]; rfl⟩
  unfold stop
  rw [Ne, ← hzero]
  omega

theorem interval_nonempty_iff {r : Region} : r.interval.Nonempty ↔ r.size ≠ 0#32 := by
  unfold interval
  rw [Set.nonempty_Ico]
  exact start_lt_stop_iff

/-- The comparison of two starts with two ends asks whether the intervals meet. -/
theorem overlaps_eq_false_iff {r q : Region} (hr : r.size ≠ 0#32) (hq : q.size ≠ 0#32) :
    r.overlaps q = false ↔ Disjoint r.interval q.interval := by
  have hrpos := start_lt_stop_iff.mpr hr
  have hqpos := start_lt_stop_iff.mpr hq
  simp only [overlaps, Bool.and_eq_false_iff, decide_eq_false_iff_not]
  rw [Set.disjoint_left]
  constructor
  · intro hside n hn hnq
    rw [mem_interval] at hn hnq
    omega
  · -- Two regions that meet do so where the later one starts.
    intro hdisjoint
    by_contra hmeet
    push Not at hmeet
    rcases Nat.le_total r.start.toNat q.start.toNat with hle | hle
    · exact hdisjoint (mem_interval.mpr ⟨hle, hmeet.2⟩) (mem_interval.mpr ⟨Nat.le_refl _, hqpos⟩)
    · exact hdisjoint (mem_interval.mpr ⟨Nat.le_refl _, hrpos⟩) (mem_interval.mpr ⟨hle, hmeet.1⟩)

end Region

namespace AddressMap

variable {δ : Type}

namespace Sound

variable {m : AddressMap δ}

theorem size_ne_zero (hm : m.Sound) {r : Region} (hr : r ∈ m.regions) : r.size ≠ 0#32 :=
  Region.start_lt_stop_iff.mp (hm.start_lt_stop hr)

theorem starts_increase (hm : m.Sound) :
    m.regions.Pairwise fun r q => r.start.toNat < q.start.toNat :=
  hm.ordered.imp_of_mem fun hr _ hle => Nat.lt_of_lt_of_le (hm.start_lt_stop hr) hle

theorem intervals_disjoint (hm : m.Sound) :
    m.regions.Pairwise fun r q => Disjoint r.interval q.interval := by
  refine hm.ordered.imp ?_
  intro r q hle
  rw [Set.disjoint_left]
  intro n hn hnq
  rw [Region.mem_interval] at hn hnq
  omega

/-- The one candidate that is looked at is the last region that does not start after the
address. -/
theorem lastBelow_eq_some_iff (hm : m.Sound) {addr : Word} {q : Region} :
    lastBelow addr m.regions = some q ↔ (q ∈ m.regions ∧ q.start.toNat ≤ addr.toNat ∧
      ∀ p ∈ m.regions, p.start.toNat ≤ addr.toNat → p.start.toNat ≤ q.start.toNat) := by
  have hlast {rs : List Region} (hrs : rs.Pairwise fun r q => r.start.toNat < q.start.toNat) :
      ∀ p ∈ rs, p.start.toNat ≤ addr.toNat →
        ∃ q, lastBelow addr rs = some q ∧ p.start.toNat ≤ q.start.toNat := by
    induction rs with
    | nil => simp
    | cons r rs ih =>
        obtain ⟨hfirst, hrest⟩ := List.pairwise_cons.mp hrs
        intro p hp hle
        unfold lastBelow
        rcases List.mem_cons.mp hp with rfl | hp
        · cases htail : lastBelow addr rs with
          | none => exact ⟨p, by simp [hle], Nat.le_refl _⟩
          | some q => exact ⟨q, rfl, Nat.le_of_lt (hfirst q (start_le_of_lastBelow htail).1)⟩
        · obtain ⟨q, hq, hpq⟩ := ih hrest p hp hle
          exact ⟨q, by rw [hq], hpq⟩
  constructor
  · intro hq
    obtain ⟨hmem, hle⟩ := start_le_of_lastBelow hq
    refine ⟨hmem, hle, ?_⟩
    intro p hp hple
    obtain ⟨q', hq', hpq⟩ := hlast hm.starts_increase p hp hple
    obtain rfl : q' = q := Option.some.inj (hq'.symm.trans hq)
    exact hpq
  · rintro ⟨hmem, hle, hgreatest⟩
    obtain ⟨q', hq', hqq⟩ := hlast hm.starts_increase q hmem hle
    obtain ⟨hmem', hle'⟩ := start_le_of_lastBelow hq'
    have hstart : q'.start = q.start :=
      BitVec.eq_of_toNat_eq (Nat.le_antisymm (hgreatest q' hmem' hle') hqq)
    rw [hq', hm.eq_of_start hmem hmem' hstart]

end Sound

/-! ### One region more -/

theorem insertRegion_eq_orderedInsert (r : Region) (rs : List Region) :
    insertRegion r rs = rs.orderedInsert (fun r q => r.start.toNat ≤ q.start.toNat) r := by
  induction rs with
  | nil => rfl
  | cons q rs ih => simp only [insertRegion, List.orderedInsert_cons, ih]

theorem perm_insertRegion (r : Region) (rs : List Region) : (insertRegion r rs).Perm (r :: rs) := by
  rw [insertRegion_eq_orderedInsert]
  exact List.perm_orderedInsert _ r rs

theorem sublist_insertRegion (r : Region) (rs : List Region) : rs.Sublist (insertRegion r rs) := by
  rw [insertRegion_eq_orderedInsert]
  exact List.sublist_orderedInsert r rs

/-- A region fits where its numbers are no other region's. -/
def Fits (m : AddressMap δ) (r : Region) : Prop :=
  r.size ≠ 0#32 ∧ ∀ q ∈ m.regions, Disjoint r.interval q.interval

theorem Sound.addRegion_eq_ok_iff {m m' : AddressMap δ} (hm : m.Sound) {r : Region} :
    m.addRegion r = .ok m' ↔ m.Fits r ∧ m' = { m with regions := insertRegion r m.regions } := by
  rw [AddressMap.addRegion_eq_ok_iff, Fits, and_assoc]
  refine and_congr_right fun hsize => and_congr_left fun _ => ?_
  exact forall₂_congr fun q hq => Region.overlaps_eq_false_iff hsize (hm.size_ne_zero hq)

/-! ### Region after region -/

/-- The table after a region was offered to it, accepted or not. -/
def offer (m : AddressMap δ) (r : Region) : AddressMap δ :=
  match m.addRegion r with
  | .ok m' => m'
  | .error _ => m

def offerAll (m : AddressMap δ) (rs : List Region) : AddressMap δ := rs.foldl offer m

/-- The table with all of the regions, none of them refused. -/
def addAll (m : AddressMap δ) (rs : List Region) : Except Fault (AddressMap δ) :=
  rs.foldlM addRegion m

section
variable {m m' : AddressMap δ} {r : Region} {rs : List Region}

theorem offer_of_ok (hadd : m.addRegion r = .ok m') : m.offer r = m' := by
  unfold offer
  rw [hadd]

theorem offer_of_error {f : Fault} (hadd : m.addRegion r = .error f) : m.offer r = m := by
  unfold offer
  rw [hadd]

theorem Sound.offer (hm : m.Sound) (r : Region) : (m.offer r).Sound := by
  cases hadd : m.addRegion r with
  | ok m' =>
      rw [offer_of_ok hadd]
      exact hm.addRegion hadd
  | error f =>
      rw [offer_of_error hadd]
      exact hm

theorem Sound.offerAll (hm : m.Sound) (rs : List Region) : (m.offerAll rs).Sound := by
  induction rs generalizing m with
  | nil => exact hm
  | cons r rs ih => exact ih (hm.offer r)

theorem sublist_offer (m : AddressMap δ) (r : Region) :
    m.regions.Sublist (m.offer r).regions := by
  cases hadd : m.addRegion r with
  | ok m' =>
      obtain ⟨-, -, rfl⟩ := AddressMap.addRegion_eq_ok_iff.mp hadd
      rw [offer_of_ok hadd]
      exact sublist_insertRegion r m.regions
  | error f =>
      rw [offer_of_error hadd]

/-- Whatever is offered later, no region of a table goes. -/
theorem sublist_offerAll (m : AddressMap δ) (rs : List Region) :
    m.regions.Sublist (m.offerAll rs).regions := by
  induction rs generalizing m with
  | nil => exact List.Sublist.refl _
  | cons r rs ih => exact (sublist_offer m r).trans (ih (m.offer r))

theorem addAll_cons_eq_ok_iff : m.addAll (r :: rs) = .ok m' ↔
    ∃ m₁, m.addRegion r = .ok m₁ ∧ m₁.addAll rs = .ok m' := by
  have hcons : m.addAll (r :: rs) = m.addRegion r >>= fun m₁ => m₁.addAll rs := List.foldlM_cons
  rw [hcons]
  cases m.addRegion r with
  | error f => exact ⟨fun h => (by cases h), fun ⟨_, h, _⟩ => (by cases h)⟩
  | ok m₁ =>
      refine ⟨fun h => ⟨m₁, rfl, h⟩, ?_⟩
      rintro ⟨_, h, hrest⟩
      obtain rfl := Except.ok.inj h
      exact hrest

theorem offerAll_of_addAll (hadd : m.addAll rs = .ok m') : m.offerAll rs = m' := by
  induction rs generalizing m with
  | nil => exact Except.ok.inj hadd
  | cons r rs ih =>
      obtain ⟨m₁, hfirst, hrest⟩ := addAll_cons_eq_ok_iff.mp hadd
      show (m.offer r).offerAll rs = m'
      rw [offer_of_ok hfirst]
      exact ih hrest

/-- What is in a table to which all of a list were added. -/
theorem perm_of_addAll (hadd : m.addAll rs = .ok m') :
    ∃ qs, m' = { m with regions := qs } ∧ qs.Perm (rs ++ m.regions) := by
  induction rs generalizing m with
  | nil => exact ⟨m.regions, (Except.ok.inj hadd).symm, List.Perm.refl _⟩
  | cons r rs ih =>
      obtain ⟨m₁, hfirst, hrest⟩ := addAll_cons_eq_ok_iff.mp hadd
      obtain ⟨-, -, rfl⟩ := AddressMap.addRegion_eq_ok_iff.mp hfirst
      obtain ⟨qs, rfl, hperm⟩ := ih hrest
      refine ⟨qs, rfl, ?_⟩
      calc qs.Perm (rs ++ insertRegion r m.regions) := hperm
        _ |>.Perm (rs ++ r :: m.regions) := (perm_insertRegion r m.regions).append_left rs
        _ |>.Perm (r :: rs ++ m.regions) := List.perm_middle

/-- All of a list of regions are accepted when each fits in the table and no two of them
meet. -/
theorem Sound.addAll_ok_iff (hm : m.Sound) : (∃ m', m.addAll rs = .ok m') ↔
    (∀ r ∈ rs, m.Fits r) ∧ rs.Pairwise fun r q => Disjoint r.interval q.interval := by
  induction rs generalizing m with
  | nil => exact ⟨fun _ => ⟨by simp, List.Pairwise.nil⟩, fun _ => ⟨m, rfl⟩⟩
  | cons r rs ih =>
      -- What fits beside the first is what fits without it and does not meet it.
      have hbeside (q : Region) : Fits { m with regions := insertRegion r m.regions } q ↔
          m.Fits q ∧ Disjoint r.interval q.interval := by
        simp only [Fits, mem_insertRegion, forall_eq_or_imp, disjoint_comm (a := r.interval)]
        tauto
      have hrest (hfits : m.Fits r) :
          (∃ m', addAll { m with regions := insertRegion r m.regions } rs = .ok m') ↔
            (∀ q ∈ rs, m.Fits q ∧ Disjoint r.interval q.interval) ∧
              rs.Pairwise fun r q => Disjoint r.interval q.interval := by
        have hsound : Sound { m with regions := insertRegion r m.regions } :=
          hm.addRegion (hm.addRegion_eq_ok_iff.mpr ⟨hfits, rfl⟩)
        simp only [ih hsound, hbeside]
      rw [List.forall_mem_cons, List.pairwise_cons]
      constructor
      · rintro ⟨m', hadd⟩
        obtain ⟨m₁, hfirst, hadd⟩ := addAll_cons_eq_ok_iff.mp hadd
        obtain ⟨hfits, rfl⟩ := hm.addRegion_eq_ok_iff.mp hfirst
        obtain ⟨hall, hpairs⟩ := (hrest hfits).mp ⟨m', hadd⟩
        exact ⟨⟨hfits, fun q hq => (hall q hq).1⟩, fun q hq => (hall q hq).2, hpairs⟩
      · rintro ⟨⟨hfits, hall⟩, hclear, hpairs⟩
        obtain ⟨m', hadd⟩ := (hrest hfits).mpr ⟨fun q hq => ⟨hall q hq, hclear q hq⟩, hpairs⟩
        exact ⟨m', addAll_cons_eq_ok_iff.mpr ⟨_, hm.addRegion_eq_ok_iff.mpr ⟨hfits, rfl⟩, hadd⟩⟩

/-- Regions that are all accepted make the same table in any order. -/
theorem Sound.addAll_perm (hm : m.Sound) (hadd : m.addAll rs = .ok m') {rs' : List Region}
    (hperm : rs.Perm rs') : m.addAll rs' = .ok m' := by
  obtain ⟨hfits, hpairs⟩ := hm.addAll_ok_iff.mp ⟨m', hadd⟩
  have hpairs' : rs'.Pairwise fun r q => Disjoint r.interval q.interval :=
    hpairs.perm hperm fun h => h.symm
  obtain ⟨m₂, hadd₂⟩ := hm.addAll_ok_iff.mpr
    ⟨fun r hr => hfits r (hperm.mem_iff.mpr hr), hpairs'⟩
  obtain ⟨qs, rfl, hqs⟩ := perm_of_addAll hadd
  obtain ⟨qs₂, rfl, hqs₂⟩ := perm_of_addAll hadd₂
  have hsorted {rs qs : List Region} (h : m.addAll rs = .ok { m with regions := qs }) :
      qs.Pairwise fun r q => r.start.toNat < q.start.toNat := by
    have hsound := hm.offerAll rs
    rw [offerAll_of_addAll h] at hsound
    exact hsound.starts_increase
  have hsame : qs₂ = qs := by
    refine List.Perm.eq_of_pairwise ?_ (hsorted hadd₂) (hsorted hadd) ?_
    · intro r q _ _ hrq hqr
      omega
    · exact hqs₂.trans ((hperm.symm.append_right m.regions).trans hqs.symm)
  rw [hadd₂, hsame]

/-! ### Every table -/

theorem Sound.unique (hm : m.Sound) {q : Region} (hr : r ∈ m.regions) (hq : q ∈ m.regions)
    {n : Nat} (hnr : n ∈ r.interval) (hnq : n ∈ q.interval) : r = q := by
  by_contra hne
  rw [Region.mem_interval] at hnr hnq
  rcases hm.disjoint hr hq hne with h | h
  · omega
  · omega

theorem Sound.lookup_eq_some_iff_interval (hm : m.Sound) {addr : Word} :
    m.lookup addr = some r ↔ r ∈ m.regions ∧ addr.toNat ∈ r.interval := by
  rw [hm.lookup_eq_some_iff, Region.contains_iff_mem_interval]

theorem Sound.lookup_isSome_iff (hm : m.Sound) {addr : Word} :
    (m.lookup addr).isSome = true ↔ ∃ r ∈ m.regions, addr.toNat ∈ r.interval := by
  rw [Option.isSome_iff_exists]
  exact exists_congr fun r => hm.lookup_eq_some_iff_interval

end

/-- **Whatever regions are offered to an empty table**, the next one is accepted exactly when it
is not empty and shares no number with any region of the table, and a refusal leaves the table
as it is.  The intervals of the table are not empty, pairwise disjoint and in the order of their
starts; an accepted region is added to the ones that are there, and none is ever replaced.  The
one candidate that `lookup` considers is the region with the greatest start up to the address,
and it finds a region exactly when one contains the address, which is then the only one.
Regions of which none was refused make the same table in any other order. -/
theorem offered_regions_exact (devices : δ) (alignment : Alignment) (offered : List Region) :
    let empty : AddressMap δ := { devices, alignment }
    let m := empty.offerAll offered
    (∀ r, (∃ m', m.addRegion r = .ok m') ↔
      r.size ≠ 0#32 ∧ ∀ q ∈ m.regions, Disjoint r.interval q.interval) ∧
    (∀ r f, m.addRegion r = .error f → m.offer r = m) ∧
    (∀ r ∈ m.regions, r.interval.Nonempty) ∧
    (m.regions.Pairwise fun r q => Disjoint r.interval q.interval) ∧
    (m.regions.Pairwise fun r q => r.start.toNat < q.start.toNat) ∧
    (∀ r m', m.addRegion r = .ok m' → m.offer r = m' ∧ m'.regions.Perm (r :: m.regions)) ∧
    (∀ later, m.regions.Sublist (m.offerAll later).regions) ∧
    (∀ addr q, lastBelow addr m.regions = some q ↔ (q ∈ m.regions ∧
      q.start.toNat ≤ addr.toNat ∧
      ∀ p ∈ m.regions, p.start.toNat ≤ addr.toNat → p.start.toNat ≤ q.start.toNat)) ∧
    (∀ addr, (m.lookup addr).isSome = true ↔ ∃ r ∈ m.regions, addr.toNat ∈ r.interval) ∧
    (∀ addr r, m.lookup addr = some r → (r ∈ m.regions ∧ addr.toNat ∈ r.interval) ∧
      ∀ q ∈ m.regions, addr.toNat ∈ q.interval → q = r) ∧
    (∀ m', empty.addAll offered = .ok m' → m' = m ∧
      ∀ reordered, offered.Perm reordered → empty.addAll reordered = .ok m) := by
  intro empty m
  have hempty : empty.Sound := sound_of_regions_nil rfl
  have hm : m.Sound := hempty.offerAll offered
  refine ⟨?accepted, ?refused, ?nonempty, hm.intervals_disjoint, hm.starts_increase, ?added,
    sublist_offerAll m, fun addr q => hm.lastBelow_eq_some_iff,
    fun addr => hm.lookup_isSome_iff, ?found, ?reordered⟩
  case accepted =>
    intro r
    simp only [hm.addRegion_eq_ok_iff, exists_and_left, exists_eq, and_true, Fits]
  case refused =>
    intro r f hadd
    exact offer_of_error hadd
  case nonempty =>
    intro r hr
    exact Region.interval_nonempty_iff.mpr (hm.size_ne_zero hr)
  case added =>
    intro r m' hadd
    obtain ⟨-, -, rfl⟩ := AddressMap.addRegion_eq_ok_iff.mp hadd
    exact ⟨offer_of_ok hadd, perm_insertRegion r m.regions⟩
  case found =>
    intro addr r hlookup
    have hr := hm.lookup_eq_some_iff_interval.mp hlookup
    exact ⟨hr, fun q hq haddr => hm.unique hq hr.1 haddr hr.2⟩
  case reordered =>
    intro m' hadd
    obtain rfl : m = m' := offerAll_of_addAll hadd
    exact ⟨rfl, fun reordered hperm => hempty.addAll_perm hadd hperm⟩

/-- A region that runs past the end of the address space, one below it and two that are
refused: the one because it meets the first just below its start, the other because it is
empty. -/
theorem offered_regions_at_the_top :
    let empty : AddressMap Unit := { devices := (), alignment := .split }
    let top := Region.ram 0xFFFFF000#32 0x2000#32
    let low := Region.boot 0x0#32 0x1000#32
    let meeting := Region.window 0xFFFFE000#32 0x1001#32
    let m := empty.offerAll [top, meeting, low]
    m.regions = [low, top] ∧ 0x100000000 ∈ top.interval ∧
      m.offer (Region.ram 0x1000#32 0x0#32) = m ∧ m.lookup 0xFFFFFFFF#32 = some top ∧
      m.lookup 0x1000#32 = none ∧ empty.addAll [top, low] = empty.addAll [low, top] := by
  intro empty top low meeting m
  have hregions : m.regions = [low, top] := by
    simp [m, empty, top, low, meeting, offerAll, offer, addRegion, insertRegion, Region.overlaps,
      Region.stop, Region.ram, Region.boot, Region.window]
  obtain ⟨-, hrefused, -, -, -, -, -, -, hsome, hfound, -⟩ :=
    offered_regions_exact () .split [top, meeting, low]
  obtain ⟨-, -, -, -, -, -, -, -, -, -, hadded⟩ := offered_regions_exact () .split [low, top]
  have hboth : empty.addAll [low, top] = .ok { empty with regions := [low, top] } := by
    simp [empty, top, low, addAll, addRegion, insertRegion, Region.overlaps, Region.stop,
      Region.ram, Region.boot, bind, Except.bind, pure, Except.pure]
  obtain ⟨hsame, hreordered⟩ := hadded _ hboth
  have htopFirst := hreordered [top, low] (List.Perm.swap top low [])
  have htop : ∀ n, n ∈ top.interval ↔ 0xFFFFF000 ≤ n ∧ n < 0x100001000 := by
    simp [Region.mem_interval, Region.stop, top, Region.ram]
  have hlow : ∀ n, n ∈ low.interval ↔ 0x0 ≤ n ∧ n < 0x1000 := by
    simp [Region.mem_interval, Region.stop, low, Region.boot]
  refine ⟨hregions, (htop _).mpr ⟨by decide, by decide⟩, hrefused _ (.emptyRegion "ram") rfl, ?_,
    ?_, by rw [htopFirst, hboth, hsame]⟩
  · have hmem : top ∈ m.regions := hregions ▸ List.mem_cons_of_mem low List.mem_cons_self
    have hlast : (0xFFFFFFFF#32 : Word).toNat ∈ top.interval := (htop _).mpr (by decide)
    obtain ⟨r, hr⟩ := Option.isSome_iff_exists.mp ((hsome 0xFFFFFFFF#32).mpr ⟨top, hmem, hlast⟩)
    rw [(hfound _ r hr).2 top hmem hlast]
    exact hr
  · rw [← Option.not_isSome_iff_eq_none, hsome, hregions]
    simp [htop, hlow]

end AddressMap

end HomeComputer
