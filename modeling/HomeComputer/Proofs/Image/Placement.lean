/-
Where the segments of an accepted image lie.

The loader asks for room twice, for the bytes that are in the file and for the zeros after
them.  The second time it asks wherever the first part ends, and another store may begin there:
at the next address, or at address zero once the address space has come to its end.  Then the
zeros go to that store.

`Together` is what is expected of a segment, that one store holds all of it.  It fails in this
way only, and so it holds of every segment where no store begins at the end of another.
-/
import HomeComputer.Proofs.Image.Loading

namespace HomeComputer

theorem Region.holds_iff (r : Region) (addr : Word) (len : Nat) :
    r.extent.holds addr len = true ↔
      r.backing.kind ≠ .window ∧ r.contains addr = true ∧ addr.toNat + len ≤ r.stop := by
  unfold Extent.holds
  rw [Bool.and_eq_true, Bool.and_eq_true, bne_iff_ne, decide_eq_true_iff, and_assoc]
  rfl

namespace ProgramHeader

/-- The store of a region holds the segment from its first byte to its last, and the zeros go
there too. -/
structure Together (p : ProgramHeader) (r : Region) : Prop where
  whole : r.extent.holds p.vaddr p.memSize.toNat = true
  zeros : p.zeroCount ≠ 0 → r.extent.holds p.zeroStart p.zeroCount = true

variable {p : ProgramHeader} {r : Region}

theorem toNat_zeroStart (p : ProgramHeader) :
    p.zeroStart.toNat = (p.vaddr.toNat + p.fileSize.toNat) % 2 ^ 32 :=
  BitVec.toNat_add p.vaddr p.fileSize

/-- No region is so long that it comes round to its own start. -/
theorem lt_of_contains_zeroStart (hbytes : r.extent.holds p.vaddr p.fileSize.toNat = true)
    (hin : r.contains p.zeroStart = true) : p.vaddr.toNat + p.fileSize.toNat < 2 ^ 32 := by
  obtain ⟨-, -, hend⟩ := (r.holds_iff _ _).mp hbytes
  have hstart := ((r.contains_iff _).mp hin).1
  rw [toNat_zeroStart] at hstart
  unfold Region.stop at hend
  have hsize := r.size.isLt
  omega

/-- If the zeros find room where the bytes before them did, nothing is apart. -/
theorem together_of_zeros (hsizes : p.fileSize.toNat ≤ p.memSize.toNat)
    (hbytes : r.extent.holds p.vaddr p.fileSize.toNat = true)
    (hzeros : r.extent.holds p.zeroStart p.zeroCount = true) : p.Together r := by
  obtain ⟨hkind, hin, hend⟩ := (r.holds_iff _ _).mp hzeros
  have hlt := lt_of_contains_zeroStart hbytes hin
  have hvaddr := ((r.holds_iff _ _).mp hbytes).2.1
  rw [toNat_zeroStart, Nat.mod_eq_of_lt hlt, zeroCount] at hend
  refine ⟨(r.holds_iff _ _).mpr ⟨hkind, hvaddr, ?_⟩, fun _ => hzeros⟩
  omega

theorem together_of_zeroCount (hsizes : p.fileSize.toNat ≤ p.memSize.toNat)
    (hbytes : r.extent.holds p.vaddr p.fileSize.toNat = true) (hcount : p.zeroCount = 0) :
    p.Together r := by
  have hsame : p.memSize.toNat = p.fileSize.toNat := by
    unfold zeroCount at hcount
    omega
  exact ⟨hsame ▸ hbytes, fun h => absurd hcount h⟩

end ProgramHeader

namespace AddressMap

variable {δ : Type} {m : AddressMap δ} {image : Array Byte} {p : ProgramHeader} {r : Region}

/-- Every store ends within the address space, and none begins where one has ended, be it after
the last address. -/
def Detached (m : AddressMap δ) : Prop :=
  ∀ r ∈ m.regions, r.backing.kind ≠ .window → r.stop ≤ 2 ^ 32 ∧
    ∀ q ∈ m.regions, q.backing.kind ≠ .window → q.start.toNat ≠ r.stop % 2 ^ 32

theorem exists_holds {addr : Word} {len : Nat}
    (hroom : m.extents.any (·.holds addr len) = true) :
    ∃ r ∈ m.regions, r.extent.holds addr len = true := by
  obtain ⟨e, he, hholds⟩ := List.any_eq_true.mp hroom
  obtain ⟨r, hr, rfl⟩ := List.mem_map.mp he
  exact ⟨r, hr, hholds⟩

/-- A segment that fits lies together exactly if the zeros begin before its store is over. -/
theorem together_iff (hm : m.Sound) (hfits : p.Fits image m.extents) (hr : r ∈ m.regions)
    (hbytes : r.extent.holds p.vaddr p.fileSize.toNat = true) :
    p.Together r ↔
      (p.zeroCount ≠ 0 → p.vaddr.toNat + p.fileSize.toNat < min r.stop (2 ^ 32)) := by
  constructor
  · intro htogether hcount
    have hin := ((r.holds_iff _ _).mp (htogether.zeros hcount)).2.1
    have hlt := ProgramHeader.lt_of_contains_zeroStart hbytes hin
    have hstop := ((r.contains_iff _).mp hin).2
    rw [p.toNat_zeroStart, Nat.mod_eq_of_lt hlt] at hstop
    exact Nat.lt_min.mpr ⟨hstop, hlt⟩
  · intro hbefore
    by_cases hcount : p.zeroCount = 0
    · exact ProgramHeader.together_of_zeroCount hfits.sizes hbytes hcount
    · obtain ⟨q, hq, hzeros⟩ := exists_holds (hfits.zeros hcount)
      obtain ⟨hstop, hlt⟩ := Nat.lt_min.mp (hbefore hcount)
      have hvaddr := (r.contains_iff _).mp ((r.holds_iff _ _).mp hbytes).2.1
      have hin : r.contains p.zeroStart = true := by
        rw [r.contains_iff, p.toNat_zeroStart, Nat.mod_eq_of_lt hlt]
        omega
      obtain rfl := hm.eq_of_contains hr hq hin ((q.holds_iff _ _).mp hzeros).2.1
      exact ProgramHeader.together_of_zeros hfits.sizes hbytes hzeros

/-- The zeros of a segment that does not lie together are in another store, all of them. -/
theorem exists_zeros_apart (hfits : p.Fits image m.extents)
    (hbytes : r.extent.holds p.vaddr p.fileSize.toNat = true) (hapart : ¬p.Together r) :
    p.zeroCount ≠ 0 ∧ ∃ q ∈ m.regions, q ≠ r ∧ q.extent.holds p.zeroStart p.zeroCount = true := by
  have hcount : p.zeroCount ≠ 0 := fun h =>
    hapart (ProgramHeader.together_of_zeroCount hfits.sizes hbytes h)
  obtain ⟨q, hq, hzeros⟩ := exists_holds (hfits.zeros hcount)
  refine ⟨hcount, q, hq, ?_, hzeros⟩
  rintro rfl
  exact hapart (ProgramHeader.together_of_zeros hfits.sizes hbytes hzeros)

/-- Where stores are detached there is no other store for the zeros to go to. -/
theorem Detached.together (hdetached : m.Detached) (hm : m.Sound)
    (hfits : p.Fits image m.extents) (hr : r ∈ m.regions)
    (hbytes : r.extent.holds p.vaddr p.fileSize.toNat = true) : p.Together r := by
  obtain ⟨hkind, hvaddr, hend⟩ := (r.holds_iff _ _).mp hbytes
  obtain ⟨hstop, hapart⟩ := hdetached r hr hkind
  rw [together_iff hm hfits hr hbytes]
  intro hcount
  by_contra hover
  have hfull : p.vaddr.toNat + p.fileSize.toNat = r.stop := by omega
  obtain ⟨q, hq, hzeros⟩ := exists_holds (hfits.zeros hcount)
  obtain ⟨hqkind, hqin, -⟩ := (q.holds_iff _ _).mp hzeros
  have hqstart := hapart q hq hqkind
  rw [q.contains_iff, p.toNat_zeroStart, hfull] at hqin
  rw [r.contains_iff] at hvaddr
  -- The zeros begin inside the other store, but not at its start, so the stores would overlap.
  have hne : r ≠ q := by
    rintro rfl
    omega
  rcases hm.disjoint hr hq hne with h | h
  · omega
  · omega

end AddressMap

namespace Machine

variable {δ : Type}

/-- The stores of the standard computer are detached if RAM leaves the last address free. -/
theorem detached_fresh {config : Config} (hpos : config.ramSize ≠ 0#32)
    (hsize : config.ramSize.toNat < 2 ^ 31) (devices : δ) :
    (fresh config devices).map.Detached := by
  have hne : config.ramSize.toNat ≠ 0 := fun h => hpos (BitVec.eq_of_toNat_eq h)
  have hstore {r : Region} (hr : r ∈ (fresh config devices).map.regions)
      (hkind : r.backing.kind ≠ .window) :
      r.start.toNat = 0 ∧ r.stop = 2 ^ 16 ∨
      r.start.toNat = 2 ^ 31 ∧ r.stop = 2 ^ 31 + config.ramSize.toNat := by
    simp only [fresh, List.mem_cons, List.not_mem_nil, or_false] at hr
    rcases hr with rfl | rfl | rfl
    · exact .inl ⟨rfl, rfl⟩
    · exact absurd rfl hkind
    · exact .inr ⟨rfl, rfl⟩
  intro r hr hkind
  have hstop := hstore hr hkind
  refine ⟨by omega, fun q hq hqkind => ?_⟩
  have hqstart := hstore hq hqkind
  omega

end Machine

namespace Elf

variable {δ : Type} {m : AddressMap δ} {image : Array Byte} {entry : Word} {i : Nat}

/-- Every segment of an image that is accepted fits. -/
theorem fits_of_load (hm : m.Sound) (hload : (load image m).1 = .ok entry)
    (hi : i < Image.headerCount image)
    (hkind : (Image.header image i).kind = ProgramHeader.loadable) :
    (Image.header image i).Fits image m.extents :=
  ((load_ok hm (Prod.ext hload rfl)).1.headers i hi).fits hkind

/-- **Where a segment lies.**  The bytes from the file of every segment of an accepted image
are in one store.  The zeros follow in the same store exactly if they begin before that store
and the address space are over; otherwise they are in another store.  That cannot happen where
the stores are detached. -/
theorem segments_lie_together (hm : m.Sound) (hload : (load image m).1 = .ok entry)
    (hi : i < Image.headerCount image)
    (hkind : (Image.header image i).kind = ProgramHeader.loadable) :
    let p := Image.header image i
    ∃ r ∈ m.regions, r.extent.holds p.vaddr p.fileSize.toNat = true ∧
      (p.Together r ↔
        (p.zeroCount ≠ 0 → p.vaddr.toNat + p.fileSize.toNat < min r.stop (2 ^ 32))) ∧
      (¬p.Together r → p.zeroCount ≠ 0 ∧
        ∃ q ∈ m.regions, q ≠ r ∧ q.extent.holds p.zeroStart p.zeroCount = true) ∧
      (m.Detached → p.Together r) := by
  intro p
  have hfits : p.Fits image m.extents := fits_of_load hm hload hi hkind
  obtain ⟨r, hr, hbytes⟩ := AddressMap.exists_holds hfits.bytes
  exact ⟨r, hr, hbytes, AddressMap.together_iff hm hfits hr hbytes,
    AddressMap.exists_zeros_apart hfits hbytes, fun h => h.together hm hfits hr hbytes⟩

/-- Three bytes and three zeros lie together in the RAM of the standard computer. -/
theorem segments_lie_together_standard :
    let image : List Byte := [
      0x464c457f#32, 0x00010101#32, 0#32, 0#32, 0x00f30002#32, 1#32, 0x80000104#32, 52#32, 0#32,
      0#32, 0x00200034#32, 1#32, 0#32,
      1#32, 84#32, 0x80000100#32, 0#32, 3#32, 6#32, 5#32, 4#32,
      0x00ccbbaa#32].flatMap Word.bytes
    let m := (Machine.fresh {} ({} : Devices)).map
    (load image.toArray m).1 = .ok 0x80000104#32 ∧
    (Image.header image.toArray 0).zeroCount = 3 ∧
    ∃ r ∈ m.regions, (Image.header image.toArray 0).Together r := by
  intro image m
  have hm : m.Sound := (Machine.reachable_fresh (by decide) ({} : Devices)).sound
  have hdetached : m.Detached := Machine.detached_fresh (by decide) (by decide) _
  have hload : (load image.toArray m).1 = .ok 0x80000104#32 := by decide +kernel
  have hcount : 0 < Image.headerCount image.toArray := by decide +kernel
  have hkind : (Image.header image.toArray 0).kind = ProgramHeader.loadable := by decide +kernel
  have hzeros : (Image.header image.toArray 0).zeroCount = 3 := by decide +kernel
  obtain ⟨r, hr, -, -, -, htogether⟩ := segments_lie_together hm hload hcount hkind
  exact ⟨hload, hzeros, r, hr, htogether hdetached⟩

/-- A segment of four bytes and four zeros in the last word of RAM, which is the last word there
is, of a computer with a boot store at address zero.  The image is accepted, no store holds the
segment, and the zeros are in the boot store. -/
theorem zeros_in_boot_store :
    let image : List Byte := [
      0x464c457f#32, 0x00010101#32, 0#32, 0#32, 0x00f30002#32, 1#32, 0xfffffffc#32, 52#32, 0#32,
      0#32, 0x00200034#32, 1#32, 0#32,
      1#32, 84#32, 0xfffffffc#32, 0#32, 4#32, 8#32, 5#32, 4#32,
      0x0badc0de#32].flatMap Word.bytes
    let stores : AddressMap Devices :=
      { regions := [Region.boot 0#32 16#32, Region.ram 0xfffffff0#32 16#32], devices := {} }
    let p := Image.header image.toArray 0
    let m := (stores.poke? 0#32 0xff#8).getD stores
    (do
      let m ← ({ devices := {} } : AddressMap Devices).addRegion (Region.ram 0xfffffff0#32 16#32)
      m.addRegion (Region.boot 0#32 16#32)) = .ok stores ∧
    (load image.toArray m).1 = .ok 0xfffffffc#32 ∧
    Image.headerCount image.toArray = 1 ∧
    p.kind = ProgramHeader.loadable ∧
    (∀ r ∈ m.regions, r.extent.holds p.vaddr p.memSize.toNat = false) ∧
    m.byte? 0#32 = some 0xff#8 ∧ (load image.toArray m).2.byte? 0#32 = some 0#8 := by
  intro image stores p m
  refine ⟨rfl, ?_, ?_, ?_, ?_, ?_, ?_⟩
  · decide +kernel
  · decide +kernel
  · decide +kernel
  · decide +kernel
  · decide +kernel
  · decide +kernel

end Elf

end HomeComputer
