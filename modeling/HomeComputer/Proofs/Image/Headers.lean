/-
What an executable image asks for.

The loader checks an image and works through its program headers one by one, and may stop at
any of them.  Here the image is read as a whole: `Readable` and `Accepts` say what all checks
come to, in places of the file and of the address space, and `Unreadable` and `Refuses` what
is reported of the first that fails.

A segment goes to memory in two parts, the bytes that are in the file and zeros after them.
Each part has to find a store that holds all of it.  Nothing here asks that it be the same
store.
-/
import HomeComputer.Elf
import HomeComputer.Proofs.Memory.FlatMemory

namespace HomeComputer

namespace ProgramHeader

/-- The bytes of the segment that are in the file. -/
def fileBytes (p : ProgramHeader) (image : Array Byte) : List Byte :=
  (image.toList.drop p.offset.toNat).take p.fileSize.toNat

/-- Where in memory the zeros begin; the address space comes round after its end. -/
def zeroStart (p : ProgramHeader) : Word := p.vaddr + p.fileSize

def zeroCount (p : ProgramHeader) : Nat := p.memSize.toNat - p.fileSize.toNat

/-- A segment that is as large in memory as in the file at least, whose bytes are all in the
file, and whose two parts each find a store that holds them. -/
structure Fits (p : ProgramHeader) (image : Array Byte) (extents : List Extent) : Prop where
  sizes : p.fileSize.toNat ≤ p.memSize.toNat
  inside : p.offset.toNat + p.fileSize.toNat ≤ image.size
  bytes : extents.any (·.holds p.vaddr p.fileSize.toNat) = true
  zeros : p.zeroCount ≠ 0 → extents.any (·.holds p.zeroStart p.zeroCount) = true

/-- Why a segment does not fit, and the bytes that are in memory when that is noticed. -/
inductive Misfits (p : ProgramHeader) (image : Array Byte) (extents : List Extent) :
    Fault → List Byte → Prop
  | sizes (hsizes : p.memSize.toNat < p.fileSize.toNat) :
      Misfits p image extents (.invalidImage .fileSizeExceedsMemorySize) []
  | outside (hsizes : p.fileSize.toNat ≤ p.memSize.toNat)
      (hend : image.size < p.offset.toNat + p.fileSize.toNat) :
      Misfits p image extents (.invalidImage .segmentOutside) []
  | bytes (hsizes : p.fileSize.toNat ≤ p.memSize.toNat)
      (hend : p.offset.toNat + p.fileSize.toNat ≤ image.size)
      (hbytes : ¬extents.any (·.holds p.vaddr p.fileSize.toNat) = true) :
      Misfits p image extents (.imageTooLarge p.vaddr p.fileSize.toNat) []
  | zeros (hsizes : p.fileSize.toNat ≤ p.memSize.toNat)
      (hend : p.offset.toNat + p.fileSize.toNat ≤ image.size)
      (hbytes : extents.any (·.holds p.vaddr p.fileSize.toNat) = true)
      (hcount : p.zeroCount ≠ 0)
      (hzeros : ¬extents.any (·.holds p.zeroStart p.zeroCount) = true) :
      Misfits p image extents (.imageTooLarge p.zeroStart p.zeroCount) (p.fileBytes image)

theorem Misfits.not_fits {p : ProgramHeader} {image : Array Byte} {extents : List Extent}
    {fault : Fault} {written : List Byte} (h : p.Misfits image extents fault written) :
    ¬p.Fits image extents := by
  intro hfits
  cases h with
  | sizes hsizes => exact absurd hfits.sizes (by omega)
  | outside _ hend => exact absurd hfits.inside (by omega)
  | bytes _ _ hbytes => exact hbytes hfits.bytes
  | zeros _ _ _ hcount hzeros => exact hzeros (hfits.zeros hcount)

end ProgramHeader

namespace Image

variable (image : Array Byte)

/-! ### Places in the file -/

/-- Where execution starts. -/
def entry : Word := wordAt image 24

def headerCount : Nat := (halfAt image 44).toNat

/-- How many bytes a program header takes up. -/
def headerSize : Nat := (halfAt image 42).toNat

def headerStart (i : Nat) : Nat := (wordAt image 28).toNat + i * headerSize image

/-- Program header `i`. -/
def header (i : Nat) : ProgramHeader where
  kind := wordAt image (headerStart image i)
  offset := wordAt image (headerStart image i + 4)
  vaddr := wordAt image (headerStart image i + 8)
  paddr := wordAt image (headerStart image i + 12)
  fileSize := wordAt image (headerStart image i + 16)
  memSize := wordAt image (headerStart image i + 20)
  flags := wordAt image (headerStart image i + 24)
  align := wordAt image (headerStart image i + 28)

theorem byteAt_extract (offset : Nat) {len k : Nat} (hk : k < len) :
    byteAt (image.extract offset (offset + len)) k = byteAt image (offset + k) := by
  unfold byteAt
  rw [Array.getD_eq_getD_getElem?, Array.getD_eq_getD_getElem?, Array.getElem?_extract]
  by_cases hin : offset + k < image.size
  · rw [if_pos (by omega)]
  · rw [if_neg (by omega), Array.getElem?_eq_none (by omega)]

theorem wordAt_extract (offset : Nat) {len k : Nat} (hk : k + 4 ≤ len) :
    wordAt (image.extract offset (offset + len)) k = wordAt image (offset + k) := by
  unfold wordAt
  rw [byteAt_extract image offset (by omega : k < len),
    byteAt_extract image offset (by omega : k + 1 < len),
    byteAt_extract image offset (by omega : k + 2 < len),
    byteAt_extract image offset (by omega : k + 3 < len)]
  rfl

/-! ### The header of the image -/

/-- An image with a complete header, for this computer, whose program headers, if it has any,
are large enough to be ones. -/
structure Readable : Prop where
  complete : 52 ≤ image.size
  magic : image.take 4 = Image.magic
  /-- The image is one of 32-bit words. -/
  wordSize : byteAt image 4 = 1#8
  lowByteFirst : byteAt image 5 = 1#8
  machine : halfAt image 18 = 0xf3#16
  headerSize : headerCount image = 0 ∨ 32 ≤ headerSize image

/-- The first thing that is wrong with the header of an image. -/
inductive Unreadable : ImageFault → Prop
  | incomplete (hsize : image.size < 52) : Unreadable .truncatedHeader
  | magic (hsize : 52 ≤ image.size) (hmagic : image.take 4 ≠ Image.magic) : Unreadable .badMagic
  | wordSize (hsize : 52 ≤ image.size) (hmagic : image.take 4 = Image.magic)
      (hclass : byteAt image 4 ≠ 1#8) : Unreadable .wrongClass
  | byteOrder (hsize : 52 ≤ image.size) (hmagic : image.take 4 = Image.magic)
      (hclass : byteAt image 4 = 1#8) (horder : byteAt image 5 ≠ 1#8) : Unreadable .wrongEncoding
  | machine (hsize : 52 ≤ image.size) (hmagic : image.take 4 = Image.magic)
      (hclass : byteAt image 4 = 1#8) (horder : byteAt image 5 = 1#8)
      (hmachine : halfAt image 18 ≠ 0xf3#16) : Unreadable .wrongMachine
  | headerSize (hsize : 52 ≤ image.size) (hmagic : image.take 4 = Image.magic)
      (hclass : byteAt image 4 = 1#8) (horder : byteAt image 5 = 1#8)
      (hmachine : halfAt image 18 = 0xf3#16) (hcount : headerCount image ≠ 0)
      (hsmall : headerSize image < 32) : Unreadable .smallProgramHeader

theorem Unreadable.not_readable {image : Array Byte} {why : ImageFault}
    (h : Unreadable image why) : ¬Readable image := by
  intro hreadable
  cases h with
  | incomplete hsize => exact absurd hreadable.complete (by omega)
  | magic _ hmagic => exact hmagic hreadable.magic
  | wordSize _ _ hclass => exact hclass hreadable.wordSize
  | byteOrder _ _ _ horder => exact horder hreadable.lowByteFirst
  | machine _ _ _ _ hmachine => exact hmachine hreadable.machine
  | headerSize _ _ _ _ _ hcount hsmall =>
      rcases hreadable.headerSize with hzero | hlarge
      · exact hcount hzero
      · omega

/-! ### The program headers -/

/-- Program header `i` is in the file, and its segment fits if it asks to be loaded. -/
structure Accepts (extents : List Extent) (i : Nat) : Prop where
  inside : headerStart image i + 32 ≤ image.size
  fits : (header image i).kind = ProgramHeader.loadable → (header image i).Fits image extents

/-- Why the loader stops at program header `i`, and the bytes of its segment that are in memory
by then. -/
inductive Refuses (extents : List Extent) (i : Nat) : Fault → List Byte → Prop
  | outside (hend : image.size < headerStart image i + 32) :
      Refuses extents i (.invalidImage .programHeaderOutside) []
  | segment (hend : headerStart image i + 32 ≤ image.size)
      (hkind : (header image i).kind = ProgramHeader.loadable) {fault : Fault}
      {written : List Byte} (hmisfits : (header image i).Misfits image extents fault written) :
      Refuses extents i fault written

theorem Refuses.not_accepts {image : Array Byte} {extents : List Extent} {i : Nat}
    {fault : Fault} {written : List Byte} (h : Refuses image extents i fault written) :
    ¬Accepts image extents i := by
  intro haccepts
  cases h with
  | outside hend => exact absurd haccepts.inside (by omega)
  | segment _ hkind hmisfits => exact hmisfits.not_fits (haccepts.fits hkind)

/-- An image that is readable and of which every program header is accepted. -/
structure Loadable (extents : List Extent) : Prop where
  readable : Readable image
  headers : ∀ i < headerCount image, Accepts image extents i

end Image

namespace FlatMemory

variable {δ : Type} (f : FlatMemory δ)

/-- The memory after a segment was loaded: its bytes from the file, then zeros. -/
def withSegment (image : Array Byte) (p : ProgramHeader) : FlatMemory δ :=
  (f.replaced p.vaddr.toNat (p.fileBytes image)).replaced p.zeroStart.toNat
    (List.replicate p.zeroCount 0#8)

/-- The memory after what program header `i` asks for was done. -/
def afterHeader (image : Array Byte) (i : Nat) : FlatMemory δ :=
  if (Image.header image i).kind = ProgramHeader.loadable then
    f.withSegment image (Image.header image i)
  else f

/-- The memory after what some program headers ask for was done, one after the other. -/
def afterHeaders (image : Array Byte) (headers : List Nat) : FlatMemory δ :=
  headers.foldl (·.afterHeader image) f

@[simp] theorem extents_afterHeader (image : Array Byte) (i : Nat) :
    (f.afterHeader image i).extents = f.extents := by
  unfold afterHeader
  split
  · rfl
  · rfl

@[simp] theorem extents_afterHeaders (image : Array Byte) (headers : List Nat) :
    (f.afterHeaders image headers).extents = f.extents := by
  induction headers generalizing f with
  | nil => rfl
  | cons i headers ih => exact (ih (f.afterHeader image i)).trans (f.extents_afterHeader image i)

/-- Headers ask for bytes and nothing else. -/
theorem exists_afterHeaders (image : Array Byte) (headers : List Nat) :
    ∃ bytes, f.afterHeaders image headers = { f with bytes } := by
  induction headers generalizing f with
  | nil => exact ⟨f.bytes, rfl⟩
  | cons i headers ih =>
      have hfirst : ∃ bytes, f.afterHeader image i = { f with bytes } := by
        unfold afterHeader
        split
        · exact ⟨_, rfl⟩
        · exact ⟨f.bytes, rfl⟩
      obtain ⟨first, hfirst⟩ := hfirst
      obtain ⟨bytes, hrest⟩ := ih { f with bytes := first }
      refine ⟨bytes, ?_⟩
      rw [← hrest, ← hfirst]
      rfl

theorem replaced_nil (n : Nat) : f.replaced n [] = f := by
  unfold replaced
  simp

end FlatMemory

end HomeComputer
