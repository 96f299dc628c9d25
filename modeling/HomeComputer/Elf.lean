/-
Executable images.

An executable image is an ELF file of 32-bit words, low byte first, for this
processor.  Its header says where the program headers are; each of those that asks to
be loaded names a piece of the file and the place in memory it goes to, with zeros
after it up to the size it has there.

The checks are made in a fixed order, the header's first and then segment by segment,
and the first that fails is the one reported.  Segments before it have been loaded by
then, and stay.
-/
import HomeComputer.Memory.AddressMap

namespace HomeComputer

/-- A number of sixteen bits in a header. -/
abbrev HalfWord := BitVec 16

namespace Image

/-- The byte at an offset, or zero past the end. -/
def byteAt (image : Array Byte) (offset : Nat) : Byte := image.getD offset 0#8

def halfAt (image : Array Byte) (offset : Nat) : HalfWord :=
  byteAt image (offset + 1) ++ byteAt image offset

def wordAt (image : Array Byte) (offset : Nat) : Word :=
  Word.ofBytes (byteAt image offset) (byteAt image (offset + 1)) (byteAt image (offset + 2))
    (byteAt image (offset + 3))

/-- The `len` bytes from an offset on, if the image has them all. -/
def slice? (image : Array Byte) (offset len : Nat) : Option (Array Byte) :=
  if offset + len ≤ image.size then some (image.extract offset (offset + len)) else none

/-- The bytes every executable image starts with. -/
def magic : Array Byte := #[0x7f#8, 0x45#8, 0x4c#8, 0x46#8]

/-- Whether the image claims to be executable. -/
def isElf (image : Array Byte) : Bool := image.take 4 == magic

end Image

/-- The header of an executable image. -/
structure ElfHeader where
  ident : Array Byte
  kind : HalfWord
  machine : HalfWord
  version : Word
  entry : Word
  /-- Where the program headers are in the file. -/
  programHeaders : Word
  /-- Where the section headers are in the file. -/
  sectionHeaders : Word
  flags : Word
  headerSize : HalfWord
  programHeaderSize : HalfWord
  programHeaderCount : HalfWord
  sectionHeaderSize : HalfWord
  sectionHeaderCount : HalfWord
  /-- The section that holds the names of sections. -/
  sectionNames : HalfWord
  deriving DecidableEq, Repr

namespace ElfHeader

def size : Nat := 52

def read (image : Array Byte) : ElfHeader where
  ident := image.take 16
  kind := Image.halfAt image 16
  machine := Image.halfAt image 18
  version := Image.wordAt image 20
  entry := Image.wordAt image 24
  programHeaders := Image.wordAt image 28
  sectionHeaders := Image.wordAt image 32
  flags := Image.wordAt image 36
  headerSize := Image.halfAt image 40
  programHeaderSize := Image.halfAt image 42
  programHeaderCount := Image.halfAt image 44
  sectionHeaderSize := Image.halfAt image 46
  sectionHeaderCount := Image.halfAt image 48
  sectionNames := Image.halfAt image 50

def riscv : HalfWord := 0xf3#16

/-- The header at the start of an image, if it is complete and for this computer. -/
def ofBytes (image : Array Byte) : Except ImageFault ElfHeader :=
  if image.size < size then .error .truncatedHeader
  else
    let h := read image
    if h.ident.take 4 ≠ Image.magic then .error .badMagic
    else if Image.byteAt image 4 ≠ 1#8 then .error .wrongClass
    else if Image.byteAt image 5 ≠ 1#8 then .error .wrongEncoding
    else if h.machine ≠ riscv then .error .wrongMachine
    else .ok h

end ElfHeader

/-- A program header: a piece of the file and its place in memory. -/
structure ProgramHeader where
  kind : Word
  /-- Where the piece is in the file. -/
  offset : Word
  vaddr : Word
  /-- Its physical address; not used here. -/
  paddr : Word
  fileSize : Word
  memSize : Word
  /-- What may be done with it. -/
  flags : Word
  /-- What its address is a multiple of. -/
  align : Word
  deriving DecidableEq, Repr

namespace ProgramHeader

def size : Nat := 32

/-- The kind that asks to be loaded. -/
def loadable : Word := 1#32

/-- The program header at the start of some bytes. -/
def ofBytes (data : Array Byte) : Except ImageFault ProgramHeader :=
  if data.size < size then .error .truncatedProgramHeader
  else .ok {
    kind := Image.wordAt data 0
    offset := Image.wordAt data 4
    vaddr := Image.wordAt data 8
    paddr := Image.wordAt data 12
    fileSize := Image.wordAt data 16
    memSize := Image.wordAt data 20
    flags := Image.wordAt data 24
    align := Image.wordAt data 28 }

end ProgramHeader

/-! ### Loading -/

namespace Elf

variable {δ : Type}

/-- An address map on which something was tried: it may have changed although it failed. -/
abbrev Attempt (δ α : Type) := Except Fault α × AddressMap δ

/-- The program header with index `i`. -/
def programHeader (image : Array Byte) (h : ElfHeader) (i : Nat) :
    Except ImageFault ProgramHeader :=
  let offset := h.programHeaders.toNat + i * h.programHeaderSize.toNat
  match Image.slice? image offset ProgramHeader.size with
  | none => .error .programHeaderOutside
  | some data => ProgramHeader.ofBytes data

/-- Loads a segment: its bytes from the file and zeros after them. -/
def loadSegment (image : Array Byte) (p : ProgramHeader) (m : AddressMap δ) : Attempt δ Unit :=
  if p.memSize.toNat < p.fileSize.toNat then
    (.error (.invalidImage .fileSizeExceedsMemorySize), m)
  else
    match Image.slice? image p.offset.toNat p.fileSize.toNat with
    | none => (.error (.invalidImage .segmentOutside), m)
    | some data =>
        match m.load p.vaddr data.toList with
        | .error fault => (.error fault, m)
        | .ok m =>
            let zeros := p.memSize.toNat - p.fileSize.toNat
            if zeros = 0 then (.ok (), m)
            else
              match m.fill (p.vaddr + p.fileSize) zeros 0#8 with
              | .error fault => (.error fault, m)
              | .ok m => (.ok (), m)

/-- Loads what the program header with index `i` asks for. -/
def loadHeader (image : Array Byte) (h : ElfHeader) (i : Nat) (m : AddressMap δ) :
    Attempt δ Unit :=
  match programHeader image h i with
  | .error why => (.error (.invalidImage why), m)
  | .ok p => if p.kind = ProgramHeader.loadable then loadSegment image p m else (.ok (), m)

/-- Loads what `count` program headers from index `i` on ask for, up to the first failure. -/
def loadHeaders (image : Array Byte) (h : ElfHeader) (i : Nat) (m : AddressMap δ) :
    Nat → Attempt δ Unit
  | 0 => (.ok (), m)
  | count + 1 =>
      match loadHeader image h i m with
      | (.error fault, m) => (.error fault, m)
      | (.ok (), m) => loadHeaders image h (i + 1) m count

/-- Loads an executable image and answers where execution starts. -/
def load (image : Array Byte) (m : AddressMap δ) : Attempt δ Word :=
  match ElfHeader.ofBytes image with
  | .error why => (.error (.invalidImage why), m)
  | .ok h =>
      if h.programHeaderSize.toNat < ProgramHeader.size ∧ 0 < h.programHeaderCount.toNat then
        (.error (.invalidImage .smallProgramHeader), m)
      else
        match loadHeaders image h 0 m h.programHeaderCount.toNat with
        | (.error fault, m) => (.error fault, m)
        | (.ok (), m) => (.ok h.entry, m)

end Elf

end HomeComputer
