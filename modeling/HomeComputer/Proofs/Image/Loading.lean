/-
An image is loaded as its headers say.

The loader changes the address map segment by segment and hands over whatever map it has when
it stops.  `Leaves` compares such a map with a memory of bytes.  One lemma says what becomes of
a segment, one of a program header and one of a stretch of them; each is a choice between going
on, with the memory that the headers ask for, and stopping at the first that is refused.

The induction is on the number of headers that are left.  No load moves a region, so what is
accepted at the end of it is what was accepted at the start.
-/
import HomeComputer.Proofs.Image.Headers
import HomeComputer.Proofs.Machine.Memory

namespace HomeComputer

namespace AddressMap

variable {δ : Type}

/-- A map that has the memory `f` and treats misaligned accesses as `m` does. -/
structure Leaves (m m' : AddressMap δ) (f : FlatMemory δ) : Prop where
  flat : m'.flat = f
  alignment : m'.alignment = m.alignment

variable {m m' : AddressMap δ} {f : FlatMemory δ}

theorem Leaves.refl (m : AddressMap δ) : m.Leaves m m.flat := ⟨rfl, rfl⟩

theorem Leaves.byte? (h : m.Leaves m' f) : m'.byte? = f.bytes :=
  congrArg FlatMemory.bytes h.flat

/-- Loading puts data where one store holds the whole range, and reports it otherwise. -/
theorem load_cases (hm : m.Sound) (a : Word) (data : List Byte) :
    (m.extents.any (·.holds a data.length) = true ∧
      ∃ m', m.load a data = .ok m' ∧ m.Leaves m' (m.flat.replaced a.toNat data)) ∨
    (¬m.extents.any (·.holds a data.length) = true ∧
      m.load a data = .error (.imageTooLarge a data.length)) := by
  have hflat := load_flat hm a data
  unfold FlatMemory.load at hflat
  rw [show m.flat.extents = m.extents from rfl] at hflat
  by_cases hroom : m.extents.any (·.holds a data.length) = true
  · refine .inl ⟨hroom, ?_⟩
    rw [if_pos hroom] at hflat
    cases hload : m.load a data with
    | error fault =>
        rw [hload] at hflat
        cases hflat
    | ok m' =>
        rw [hload] at hflat
        refine ⟨m', rfl, (congrArg Prod.snd hflat).symm, ?_⟩
        unfold load at hload
        cases hrange : m.storeRange? a data.length with
        | none =>
            rw [hrange] at hload
            cases hload
        | some found =>
            rw [hrange] at hload
            obtain rfl := Except.ok.inj hload
            rfl
  · refine .inr ⟨hroom, ?_⟩
    rw [if_neg hroom] at hflat
    cases hload : m.load a data with
    | ok m' =>
        rw [hload] at hflat
        cases hflat
    | error fault =>
        rw [hload] at hflat
        obtain rfl := Option.some.inj (congrArg Prod.fst hflat)
        rfl

theorem load_eq_ok_iff (hm : m.Sound) (a : Word) (data : List Byte) :
    (∃ m', m.load a data = .ok m') ↔ m.extents.any (·.holds a data.length) = true := by
  rcases load_cases hm a data with ⟨hroom, m', hload, -⟩ | ⟨hroom, hload⟩
  · exact ⟨fun _ => hroom, fun _ => ⟨m', hload⟩⟩
  · rw [hload]
    refine ⟨?_, fun h => absurd h hroom⟩
    rintro ⟨m', h⟩
    cases h

end AddressMap

namespace Elf

variable {δ : Type} {m : AddressMap δ} {image : Array Byte}

/-! ### One segment -/

theorem slice?_of_le {offset len : Nat} (hend : offset + len ≤ image.size) :
    Image.slice? image offset len = some (image.extract offset (offset + len)) :=
  if_pos hend

theorem slice?_of_lt {offset len : Nat} (hend : image.size < offset + len) :
    Image.slice? image offset len = none :=
  if_neg (by omega)

theorem toList_slice (p : ProgramHeader) :
    (image.extract p.offset.toNat (p.offset.toNat + p.fileSize.toNat)).toList =
      p.fileBytes image := by
  unfold ProgramHeader.fileBytes
  rw [Array.toList_extract, List.extract_eq_take_drop]
  rw [Nat.add_sub_cancel_left]

theorem length_fileBytes {p : ProgramHeader}
    (hend : p.offset.toNat + p.fileSize.toNat ≤ image.size) :
    (p.fileBytes image).length = p.fileSize.toNat := by
  unfold ProgramHeader.fileBytes
  rw [List.length_take, List.length_drop, Array.length_toList]
  omega

/-- What becomes of the zeros of a segment whose bytes from the file are in memory. -/
theorem fill_cases (hm : m.Sound) (p : ProgramHeader) :
    (m.extents.any (·.holds p.zeroStart p.zeroCount) = true ∧
      ∃ m', m.fill p.zeroStart p.zeroCount 0#8 = .ok m' ∧
        m.Leaves m' (m.flat.replaced p.zeroStart.toNat (List.replicate p.zeroCount 0#8))) ∨
    (¬m.extents.any (·.holds p.zeroStart p.zeroCount) = true ∧
      m.fill p.zeroStart p.zeroCount 0#8 = .error (.imageTooLarge p.zeroStart p.zeroCount)) := by
  have h := AddressMap.load_cases hm p.zeroStart (List.replicate p.zeroCount 0#8)
  rwa [List.length_replicate, ← AddressMap.fill_eq_load] at h

/-- Once a segment's bytes from the file are in memory only its zeros are left. -/
theorem loadSegment_of_load {p : ProgramHeader} (hsizes : p.fileSize.toNat ≤ p.memSize.toNat)
    (hend : p.offset.toNat + p.fileSize.toNat ≤ image.size) {m₁ : AddressMap δ}
    (hload : m.load p.vaddr (p.fileBytes image) = .ok m₁) :
    loadSegment image p m =
      if p.zeroCount = 0 then (.ok (), m₁)
      else
        match m₁.fill p.zeroStart p.zeroCount 0#8 with
        | .error fault => (.error fault, m₁)
        | .ok m₂ => (.ok (), m₂) := by
  unfold loadSegment
  rw [if_neg (by omega), slice?_of_le hend]
  simp only [toList_slice, hload]
  rfl

/-- What becomes of a segment. -/
theorem loadSegment_cases (hm : m.Sound) (p : ProgramHeader) :
    (p.Fits image m.extents ∧
      ∃ m', loadSegment image p m = (.ok (), m') ∧ m.Leaves m' (m.flat.withSegment image p)) ∨
    ∃ fault written, p.Misfits image m.extents fault written ∧
      ∃ m', loadSegment image p m = (.error fault, m') ∧
        m.Leaves m' (m.flat.replaced p.vaddr.toNat written) := by
  have hstart : m.Leaves m (m.flat.replaced p.vaddr.toNat []) := by
    rw [FlatMemory.replaced_nil]
    exact AddressMap.Leaves.refl m
  by_cases hsizes : p.memSize.toNat < p.fileSize.toNat
  · exact .inr ⟨_, _, .sizes hsizes, m, if_pos hsizes, hstart⟩
  have hle : p.fileSize.toNat ≤ p.memSize.toNat := Nat.le_of_not_lt hsizes
  by_cases hlt : image.size < p.offset.toNat + p.fileSize.toNat
  · refine .inr ⟨_, _, .outside hle hlt, m, ?_, hstart⟩
    unfold loadSegment
    rw [if_neg hsizes, slice?_of_lt hlt]
  have hend : p.offset.toNat + p.fileSize.toNat ≤ image.size := Nat.le_of_not_lt hlt
  rcases AddressMap.load_cases hm p.vaddr (p.fileBytes image) with
    ⟨hbytes, m₁, hload, hfile⟩ | ⟨hbytes, hload⟩
  · rw [length_fileBytes hend] at hbytes
    rw [loadSegment_of_load hle hend hload]
    by_cases hcount : p.zeroCount = 0
    · refine .inl ⟨⟨hle, hend, hbytes, fun h => absurd hcount h⟩, m₁, if_pos hcount, ?_⟩
      unfold FlatMemory.withSegment
      rw [hcount, List.replicate_zero, FlatMemory.replaced_nil]
      exact hfile
    · have hextents : m₁.extents = m.extents := congrArg FlatMemory.extents hfile.flat
      rw [if_neg hcount]
      rcases fill_cases (hm.of_extents hextents) p with
        ⟨hzeros, m₂, hfill, hdone⟩ | ⟨hzeros, hfill⟩
      · rw [hextents] at hzeros
        rw [hfill]
        refine .inl ⟨⟨hle, hend, hbytes, fun _ => hzeros⟩, m₂, rfl, ?_, ?_⟩
        · rw [hdone.flat, hfile.flat]
          rfl
        · rw [hdone.alignment, hfile.alignment]
      · rw [hextents] at hzeros
        rw [hfill]
        exact .inr ⟨_, _, .zeros hle hend hbytes hcount hzeros, m₁, rfl, hfile⟩
  · rw [length_fileBytes hend] at hbytes hload
    refine .inr ⟨_, _, .bytes hle hend hbytes, m, ?_, hstart⟩
    unfold loadSegment
    rw [if_neg hsizes, slice?_of_le hend]
    simp only [toList_slice, hload]

/-! ### One program header -/

theorem programHeader_eq (i : Nat) :
    programHeader image (ElfHeader.read image) i =
      match Image.slice? image (Image.headerStart image i) 32 with
      | none => .error .programHeaderOutside
      | some data => ProgramHeader.ofBytes data :=
  rfl

theorem programHeader_of_lt {i : Nat} (hend : image.size < Image.headerStart image i + 32) :
    programHeader image (ElfHeader.read image) i = .error .programHeaderOutside := by
  rw [programHeader_eq, slice?_of_lt hend]

/-- The program header that the loader reads is the one in its place in the file. -/
theorem programHeader_of_le {i : Nat} (hend : Image.headerStart image i + 32 ≤ image.size) :
    programHeader image (ElfHeader.read image) i = .ok (Image.header image i) := by
  have hsize : (image.extract (Image.headerStart image i)
      (Image.headerStart image i + 32)).size = ProgramHeader.size := by
    rw [Array.size_extract, ProgramHeader.size]
    omega
  have hword {k : Nat} (hk : k + 4 ≤ 32) :=
    Image.wordAt_extract image (Image.headerStart image i) hk
  rw [programHeader_eq, slice?_of_le hend]
  show ProgramHeader.ofBytes _ = _
  unfold ProgramHeader.ofBytes
  rw [if_neg (by omega), hword (by decide : 0 + 4 ≤ 32), hword (by decide : 4 + 4 ≤ 32),
    hword (by decide : 8 + 4 ≤ 32), hword (by decide : 12 + 4 ≤ 32),
    hword (by decide : 16 + 4 ≤ 32), hword (by decide : 20 + 4 ≤ 32),
    hword (by decide : 24 + 4 ≤ 32), hword (by decide : 28 + 4 ≤ 32)]
  rfl

/-- What becomes of a program header. -/
theorem loadHeader_cases (image : Array Byte) (hm : m.Sound) (i : Nat) :
    (Image.Accepts image m.extents i ∧
      ∃ m', loadHeader image (ElfHeader.read image) i m = (.ok (), m') ∧
        m.Leaves m' (m.flat.afterHeader image i)) ∨
    ∃ fault written, Image.Refuses image m.extents i fault written ∧
      ∃ m', loadHeader image (ElfHeader.read image) i m = (.error fault, m') ∧
        m.Leaves m' (m.flat.replaced (Image.header image i).vaddr.toNat written) := by
  unfold loadHeader
  by_cases hend : Image.headerStart image i + 32 ≤ image.size
  · rw [programHeader_of_le hend]
    unfold FlatMemory.afterHeader
    by_cases hkind : (Image.header image i).kind = ProgramHeader.loadable
    · simp only [if_pos hkind]
      rcases loadSegment_cases hm (Image.header image i) with
        ⟨hfits, hdone⟩ | ⟨fault, written, hmisfits, hdone⟩
      · exact .inl ⟨⟨hend, fun _ => hfits⟩, hdone⟩
      · exact .inr ⟨fault, written, .segment hend hkind hmisfits, hdone⟩
    · simp only [if_neg hkind]
      exact .inl ⟨⟨hend, fun h => absurd h hkind⟩, m, rfl, AddressMap.Leaves.refl m⟩
  · have hlt : image.size < Image.headerStart image i + 32 := Nat.lt_of_not_le hend
    rw [programHeader_of_lt hlt]
    refine .inr ⟨_, _, .outside hlt, m, rfl, ?_⟩
    rw [FlatMemory.replaced_nil]
    exact AddressMap.Leaves.refl m

/-! ### All of them -/

/-- What becomes of `count` program headers from number `i` on: all are accepted, or some are
and the next is refused. -/
theorem loadHeaders_cases (image : Array Byte) (hm : m.Sound) (i count : Nat) :
    ((∀ j, i ≤ j → j < i + count → Image.Accepts image m.extents j) ∧
      ∃ m', loadHeaders image (ElfHeader.read image) i m count = (.ok (), m') ∧
        m.Leaves m' (m.flat.afterHeaders image (List.range' i count))) ∨
    ∃ k < count, ∃ fault written,
      (∀ j, i ≤ j → j < i + k → Image.Accepts image m.extents j) ∧
      Image.Refuses image m.extents (i + k) fault written ∧
      ∃ m', loadHeaders image (ElfHeader.read image) i m count = (.error fault, m') ∧
        m.Leaves m' ((m.flat.afterHeaders image (List.range' i k)).replaced
          (Image.header image (i + k)).vaddr.toNat written) := by
  induction count generalizing i m with
  | zero => exact .inl ⟨fun j _ _ => by omega, m, rfl, AddressMap.Leaves.refl m⟩
  | succ count ih =>
      unfold loadHeaders
      rcases loadHeader_cases image hm i with
        ⟨haccepts, m₁, hload, hfirst⟩ | ⟨fault, written, hrefuses, m₁, hload, hfirst⟩
      · rw [hload]
        have hextents : m₁.extents = m.extents :=
          (congrArg FlatMemory.extents hfirst.flat).trans (FlatMemory.extents_afterHeader _ _ _)
        have hcons (k : Nat) (hall : ∀ j, i + 1 ≤ j → j < i + 1 + k →
            Image.Accepts image m.extents j) (j : Nat) (hij : i ≤ j) (hjk : j < i + (k + 1)) :
            Image.Accepts image m.extents j := by
          by_cases hj : i = j
          · exact hj ▸ haccepts
          · exact hall j (by omega) (by omega)
        have hstep (k : Nat) : m.flat.afterHeaders image (List.range' i (k + 1)) =
            m₁.flat.afterHeaders image (List.range' (i + 1) k) := by
          rw [hfirst.flat, List.range'_succ]
          rfl
        rcases ih (hm.of_extents hextents) (i + 1) with
          ⟨hall, m₂, hrest, hdone⟩ | ⟨k, hk, fault, written, hall, hrefuses, m₂, hrest, hdone⟩
        · rw [hextents] at hall
          refine .inl ⟨hcons count hall, m₂, hrest, ?_, hdone.alignment.trans hfirst.alignment⟩
          rw [hdone.flat, hstep]
        · rw [hextents] at hall hrefuses
          rw [Nat.add_assoc, Nat.add_comm 1 k] at hrefuses hdone
          refine .inr ⟨k + 1, by omega, fault, written, hcons k hall, hrefuses, m₂, hrest, ?_,
            hdone.alignment.trans hfirst.alignment⟩
          rw [hdone.flat, hstep]
      · rw [hload]
        exact .inr ⟨0, by omega, fault, written, fun j _ _ => by omega, hrefuses, m₁, rfl, hfirst⟩

theorem magic_of_read (image : Array Byte) :
    (ElfHeader.read image).ident.take 4 = image.take 4 := by
  show (image.take 16).take 4 = image.take 4
  simp

/-- The loader starts on the program headers of an image that is readable, and refuses any
other outright. -/
theorem load_readable (image : Array Byte) (m : AddressMap δ) :
    (Image.Readable image ∧ load image m =
      match loadHeaders image (ElfHeader.read image) 0 m (Image.headerCount image) with
      | (.error fault, m) => (.error fault, m)
      | (.ok (), m) => (.ok (Image.entry image), m)) ∨
    ∃ why, Image.Unreadable image why ∧ load image m = (.error (.invalidImage why), m) := by
  unfold load ElfHeader.ofBytes
  by_cases hsize : image.size < ElfHeader.size
  · rw [if_pos hsize]
    exact .inr ⟨_, .incomplete hsize, rfl⟩
  have hcomplete : 52 ≤ image.size := Nat.le_of_not_lt hsize
  rw [if_neg hsize]
  simp only [magic_of_read]
  by_cases hmagic : image.take 4 ≠ Image.magic
  · rw [if_pos hmagic]
    exact .inr ⟨_, .magic hcomplete hmagic, rfl⟩
  rw [if_neg hmagic]
  have hmagic := not_ne_iff.mp hmagic
  by_cases hclass : Image.byteAt image 4 ≠ 1#8
  · rw [if_pos hclass]
    exact .inr ⟨_, .wordSize hcomplete hmagic hclass, rfl⟩
  rw [if_neg hclass]
  have hclass := not_ne_iff.mp hclass
  by_cases horder : Image.byteAt image 5 ≠ 1#8
  · rw [if_pos horder]
    exact .inr ⟨_, .byteOrder hcomplete hmagic hclass horder, rfl⟩
  rw [if_neg horder]
  have horder := not_ne_iff.mp horder
  by_cases hmachine : (ElfHeader.read image).machine ≠ ElfHeader.riscv
  · rw [if_pos hmachine]
    exact .inr ⟨_, .machine hcomplete hmagic hclass horder hmachine, rfl⟩
  rw [if_neg hmachine]
  have hmachine := not_ne_iff.mp hmachine
  by_cases hsmall : Image.headerSize image < 32 ∧ 0 < Image.headerCount image
  · refine .inr ⟨_, .headerSize hcomplete hmagic hclass horder hmachine (by omega) hsmall.1, ?_⟩
    exact if_pos hsmall
  · refine .inl ⟨⟨hcomplete, hmagic, hclass, horder, hmachine, by omega⟩, ?_⟩
    exact if_neg hsmall

/-- What becomes of an image: it is accepted, refused outright, or given up at a program
header. -/
theorem load_cases (hm : m.Sound) (image : Array Byte) :
    (Image.Loadable image m.extents ∧
      ∃ m', load image m = (.ok (Image.entry image), m') ∧
        m.Leaves m' (m.flat.afterHeaders image (List.range (Image.headerCount image)))) ∨
    (∃ why, Image.Unreadable image why ∧ load image m = (.error (.invalidImage why), m)) ∨
    (Image.Readable image ∧ ∃ k < Image.headerCount image, ∃ fault written,
      (∀ i < k, Image.Accepts image m.extents i) ∧
      Image.Refuses image m.extents k fault written ∧
      ∃ m', load image m = (.error fault, m') ∧
        m.Leaves m' ((m.flat.afterHeaders image (List.range k)).replaced
          (Image.header image k).vaddr.toNat written)) := by
  rcases load_readable image m with ⟨hreadable, hload⟩ | hrefused
  · rw [hload]
    rcases loadHeaders_cases image hm 0 (Image.headerCount image) with
      ⟨hall, m', hrest, hdone⟩ | ⟨k, hk, fault, written, hall, hrefuses, m', hrest, hdone⟩
    · rw [hrest]
      refine .inl ⟨⟨hreadable, fun i hi => hall i (Nat.zero_le i) (by omega)⟩, m', rfl, ?_⟩
      rwa [List.range_eq_range']
    · rw [hrest]
      rw [Nat.zero_add] at hrefuses hdone
      refine .inr (.inr ⟨hreadable, k, hk, fault, written,
        fun i hi => hall i (Nat.zero_le i) (by omega), hrefuses, m', rfl, ?_⟩)
      rwa [List.range_eq_range']
  · exact .inr (.inl hrefused)

theorem load_ok (hm : m.Sound) {entry : Word} {m' : AddressMap δ}
    (hload : load image m = (.ok entry, m')) :
    Image.Loadable image m.extents ∧ entry = Image.entry image ∧
      m.Leaves m' (m.flat.afterHeaders image (List.range (Image.headerCount image))) := by
  rcases load_cases hm image with ⟨hloadable, m₁, h, hdone⟩ | ⟨why, -, h⟩ |
    ⟨-, k, -, fault, written, -, -, m₁, h, -⟩
  · rw [h] at hload
    cases hload
    exact ⟨hloadable, rfl, hdone⟩
  · rw [h] at hload
    cases hload
  · rw [h] at hload
    cases hload

theorem load_error (hm : m.Sound) {fault : Fault} {m' : AddressMap δ}
    (hload : load image m = (.error fault, m')) :
    (∃ why, fault = .invalidImage why ∧ Image.Unreadable image why ∧ m' = m) ∨
    Image.Readable image ∧ ∃ k < Image.headerCount image, ∃ written,
      (∀ i < k, Image.Accepts image m.extents i) ∧
      Image.Refuses image m.extents k fault written ∧
      m.Leaves m' ((m.flat.afterHeaders image (List.range k)).replaced
        (Image.header image k).vaddr.toNat written) := by
  rcases load_cases hm image with ⟨-, m₁, h, -⟩ | ⟨why, hwhy, h⟩ |
    ⟨hreadable, k, hk, found, written, hall, hrefuses, m₁, h, hdone⟩
  · rw [h] at hload
    cases hload
  · rw [h] at hload
    cases hload
    exact .inl ⟨why, rfl, hwhy, rfl⟩
  · rw [h] at hload
    cases hload
    exact .inr ⟨hreadable, k, hk, written, hall, hrefuses, hdone⟩

theorem exists_load_eq_ok_iff (hm : m.Sound) (image : Array Byte) :
    (∃ entry, (load image m).1 = .ok entry) ↔ Image.Loadable image m.extents := by
  constructor
  · rintro ⟨entry, h⟩
    exact (load_ok hm (Prod.ext h rfl)).1
  · intro hloadable
    cases h : load image m with
    | mk result m' =>
        cases result with
        | ok entry => exact ⟨entry, rfl⟩
        | error fault =>
            rcases load_error hm h with ⟨why, -, hwhy, -⟩ | ⟨-, k, hk, written, -, hrefuses, -⟩
            · exact absurd hloadable.readable hwhy.not_readable
            · exact absurd (hloadable.headers k hk) hrefuses.not_accepts

end Elf

namespace Machine

variable {δ : Type} {m : Machine δ}

theorem loadImage_of_isElf {image : List Byte} (helf : Image.isElf image.toArray = true) :
    let result := (Elf.load image.toArray m.map).1
    let map := (Elf.load image.toArray m.map).2
    m.loadImage image = (result, { m with
      map
      hart := { m.hart with pc := result.toOption.getD m.pc } }) := by
  unfold loadImage
  simp only [helf, if_true]
  cases hload : Elf.load image.toArray m.map with
  | mk result map =>
      cases result with
      | error fault => rfl
      | ok entry => rfl

theorem loadImage_of_raw {image : List Byte} (helf : Image.isElf image.toArray = false) :
    m.loadImage image =
      match m.map.load m.resetPc image with
      | .error fault => (.error fault, m)
      | .ok map => (.ok m.resetPc, { m with map, hart := { m.hart with pc := m.resetPc } }) := by
  unfold loadImage
  simp only [helf, Bool.false_eq_true, if_false]
  cases m.map.load m.resetPc image with
  | error fault => rfl
  | ok map => rfl

/-- Loading an image changes bytes and nothing else of the memory behind the map. -/
theorem exists_flat_loadImage (hm : m.map.Sound) (image : List Byte) :
    ∃ bytes, (m.loadImage image).2.map.flat = { m.map.flat with bytes } := by
  cases helf : Image.isElf image.toArray with
  | true =>
      rw [loadImage_of_isElf helf]
      rcases Elf.load_cases hm image.toArray with ⟨-, map, hload, hdone⟩ | ⟨why, -, hload⟩ |
        ⟨-, k, -, fault, written, -, -, map, hload, hdone⟩
      · rw [hload]
        obtain ⟨bytes, hbytes⟩ := m.map.flat.exists_afterHeaders image.toArray
          (List.range (Image.headerCount image.toArray))
        exact ⟨bytes, hdone.flat.trans hbytes⟩
      · rw [hload]
        exact ⟨m.map.flat.bytes, rfl⟩
      · rw [hload]
        obtain ⟨bytes, hbytes⟩ := m.map.flat.exists_afterHeaders image.toArray (List.range k)
        rw [hbytes] at hdone
        exact ⟨_, hdone.flat⟩
  | false =>
      rw [loadImage_of_raw helf]
      rcases AddressMap.load_cases hm m.resetPc image with ⟨-, map, hload, hdone⟩ | ⟨-, hload⟩
      · rw [hload]
        exact ⟨_, hdone.flat⟩
      · rw [hload]
        exact ⟨m.map.flat.bytes, rfl⟩

theorem extents_loadImage (hm : m.map.Sound) (image : List Byte) :
    (m.loadImage image).2.map.extents = m.map.extents := by
  obtain ⟨bytes, hflat⟩ := exists_flat_loadImage hm image
  exact congrArg FlatMemory.extents hflat

theorem devices_loadImage (hm : m.map.Sound) (image : List Byte) :
    (m.loadImage image).2.map.devices = m.map.devices := by
  obtain ⟨bytes, hflat⟩ := exists_flat_loadImage hm image
  exact congrArg FlatMemory.devices hflat

theorem control_loadImage (m : Machine δ) (image : List Byte) :
    (m.loadImage image).2.control = m.control := by
  cases helf : Image.isElf image.toArray with
  | true => rw [loadImage_of_isElf helf]
  | false =>
      rw [loadImage_of_raw helf]
      cases m.map.load m.resetPc image with
      | error fault => rfl
      | ok map => rfl

/-- The hart starts where the image says. -/
theorem pc_of_loadImage {image : List Byte} {entry : Word} {after : Machine δ}
    (hload : m.loadImage image = (.ok entry, after)) : after.pc = entry := by
  unfold loadImage at hload
  dsimp only at hload
  split at hload
  · cases hload
  · obtain ⟨hentry, rfl⟩ := Prod.ext_iff.mp hload
    exact Except.ok.inj hentry

/-- **An image is loaded as its headers say.**  An executable one is accepted exactly if it is
readable and all its program headers are accepted.  Then memory is what they ask for, one after
the other, and otherwise what those before the first that is refused ask for, with the bytes of
the refused one if only its zeros found no room.  Parts of segments find room exactly where
`load` and `fill` would put them.  The computer starts at the entry of an image that was
accepted and is otherwise left as it was; an image of no known kind is put at the reset address
as a whole. -/
theorem images_load_as_headers_say (m : Machine δ) (hm : m.map.Sound) (image : List Byte) :
    let file := image.toArray
    let extents := m.map.extents
    let result := (Elf.load file m.map).1
    let map := (Elf.load file m.map).2
    ((∃ entry, result = .ok entry) ↔ Image.Loadable file extents) ∧
    (∀ entry, result = .ok entry → entry = Image.entry file ∧
      m.map.Leaves map (m.map.flat.afterHeaders file (List.range (Image.headerCount file)))) ∧
    (∀ fault, result = .error fault →
      (∃ why, fault = .invalidImage why ∧ Image.Unreadable file why ∧ map = m.map) ∨
      Image.Readable file ∧ ∃ k < Image.headerCount file, ∃ written,
        (∀ i < k, Image.Accepts file extents i) ∧ Image.Refuses file extents k fault written ∧
        m.map.Leaves map ((m.map.flat.afterHeaders file (List.range k)).replaced
          (Image.header file k).vaddr.toNat written)) ∧
    (∀ addr data, (∃ map', m.map.load addr data = .ok map') ↔
      extents.any (·.holds addr data.length) = true) ∧
    (∀ addr len b, (∃ map', m.map.fill addr len b = .ok map') ↔
      extents.any (·.holds addr len) = true) ∧
    (Image.isElf file = true → m.loadImage image = (result, { m with
      map
      hart := { m.hart with pc := result.toOption.getD m.pc } })) ∧
    (Image.isElf file = false →
      (extents.any (·.holds m.resetPc image.length) = true ∧
        ∃ map', m.map.Leaves map' (m.map.flat.replaced m.resetPc.toNat image) ∧
          m.loadImage image = (.ok m.resetPc, { m with
            map := map'
            hart := { m.hart with pc := m.resetPc } })) ∨
      (¬extents.any (·.holds m.resetPc image.length) = true ∧
        m.loadImage image = (.error (.imageTooLarge m.resetPc image.length), m))) := by
  intro file extents result map
  refine ⟨Elf.exists_load_eq_ok_iff hm file, ?_, ?_, AddressMap.load_eq_ok_iff hm, ?_,
    loadImage_of_isElf, ?_⟩
  · intro entry hresult
    exact (Elf.load_ok hm (Prod.ext hresult rfl)).2
  · intro fault hresult
    exact Elf.load_error hm (Prod.ext hresult rfl)
  · intro addr len b
    have hload := AddressMap.load_eq_ok_iff hm addr (List.replicate len b)
    rwa [List.length_replicate, ← AddressMap.fill_eq_load] at hload
  · intro hraw
    rw [loadImage_of_raw hraw]
    rcases AddressMap.load_cases hm m.resetPc image with
      ⟨hroom, map', hload, hdone⟩ | ⟨hroom, hload⟩
    · rw [hload]
      exact .inl ⟨hroom, map', hdone, rfl⟩
    · rw [hload]
      exact .inr ⟨hroom, rfl⟩

/-- Where memory was all ones, a segment of three bytes and three zeros, a header that asks for
nothing, and a segment of one byte and one zero over the first. -/
theorem images_load_as_headers_say_overlapping :
    let image : List Byte := [
      0x464c457f#32, 0x00010101#32, 0#32, 0#32, 0x00f30002#32, 1#32, 0x80000104#32, 52#32, 0#32,
      0#32, 0x00200034#32, 3#32, 0#32,
      1#32, 148#32, 0x80000100#32, 0#32, 3#32, 6#32, 5#32, 4#32,
      4#32, 999#32, 0x20000000#32, 0#32, 9#32, 1#32, 0#32, 0#32,
      1#32, 148#32, 0x80000102#32, 0#32, 1#32, 2#32, 5#32, 4#32,
      0x00ccbbaa#32].flatMap Word.bytes
    let m := ((fresh {} ({} : Devices)).serve (.fill 0x80000100#32 8 0xff#8)).2
    m.map.Sound ∧ (m.loadImage image).1 = .ok 0x80000104#32 ∧
    (m.loadImage image).2.hart = { m.hart with pc := 0x80000104#32 } ∧
    (List.range 8).map (fun k =>
        (m.loadImage image).2.map.byte? (0x80000100#32 + BitVec.ofNat 32 k)) =
      [0xaa#8, 0xbb#8, 0xaa#8, 0#8, 0#8, 0#8, 0xff#8, 0xff#8].map some := by
  intro image m
  have hm : m.map.Sound := ((reachable_fresh (by decide) ({} : Devices)).serve _).sound
  have helf : Image.isElf image.toArray = true := by decide +kernel
  have hresult : (Elf.load image.toArray m.map).1 = .ok 0x80000104#32 := by
    decide +kernel
  have hcount : Image.headerCount image.toArray = 3 := by decide +kernel
  obtain ⟨-, hmemory, -, -, -, hmachine, -⟩ := images_load_as_headers_say m hm image
  obtain ⟨-, hdone⟩ := hmemory _ hresult
  rw [hcount] at hdone
  have hloaded := hmachine helf
  rw [hresult] at hloaded
  have hmap : (m.loadImage image).2.map = (Elf.load image.toArray m.map).2 := by
    rw [hloaded]
  refine ⟨hm, ?_, ?_, ?_⟩
  · rw [hloaded]
  · rw [hloaded]
    rfl
  · rw [hmap, hdone.byte?]
    decide +kernel

end Machine

end HomeComputer
