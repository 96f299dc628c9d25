/-
What can go wrong on the host's side.

Guest errors are traps and never show up here.  A `Fault` is a cause; `message` is
how it is reported to a caller and `detail` how the command line shows it.
-/
import HomeComputer.Text
import HomeComputer.Word

namespace HomeComputer

/-- What is wrong with an executable image. -/
inductive ImageFault
  | truncatedHeader
  | badMagic
  | wrongClass
  | wrongEncoding
  | wrongMachine
  | truncatedProgramHeader
  | smallProgramHeader
  | programHeaderOutside
  | fileSizeExceedsMemorySize
  | segmentOutside
  deriving DecidableEq, Repr

def ImageFault.reason : ImageFault → String
  | truncatedHeader => "truncated header"
  | badMagic => "bad magic"
  | wrongClass => "not a 32-bit image"
  | wrongEncoding => "not little-endian"
  | wrongMachine => "not a RISC-V image"
  | truncatedProgramHeader => "truncated program header"
  | smallProgramHeader => "program header entry too small"
  | programHeaderOutside => "program header out of bounds"
  | fileSizeExceedsMemorySize => "segment file size exceeds memory size"
  | segmentOutside => "segment out of bounds"

/-- Why a file could not be read. -/
inductive FileFault
  | missing
  | forbidden
  /-- Something on the way to the file is no directory. -/
  | notDirectory
  | directory
  /-- The path or one of its names is too long. -/
  | nameTooLong
  deriving DecidableEq, Repr

/-- A failure on the host's side. -/
inductive Fault
  | invalidImage (why : ImageFault)
  | imageTooLarge (addr : Word) (len : Nat)
  | regionOverlap (name : String) (start : Word)
  | emptyRegion (name : String)
  | repeatedBreakpoint (addr : Word)
  | breakpointNotFound (addr : Word)
  | ramTooLarge
  | unreadableFile (why : FileFault) (path : String)
  deriving DecidableEq, Repr

namespace FileFault

def number : FileFault → Nat
  | missing => 2
  | forbidden => 13
  | notDirectory => 20
  | directory => 21
  | nameTooLong => 36

def kind : FileFault → String
  | missing => "NotFound"
  | forbidden => "PermissionDenied"
  | notDirectory => "NotADirectory"
  | directory => "IsADirectory"
  | nameTooLong => "InvalidFilename"

def description : FileFault → String
  | missing => "No such file or directory"
  | forbidden => "Permission denied"
  | notDirectory => "Not a directory"
  | directory => "Is a directory"
  | nameTooLong => "File name too long"

end FileFault

namespace Fault

/-- The text for a RAM size that does not fit a word. -/
def ramTooLargeText : String := "RAM size too large"

def message : Fault → String
  | invalidImage why => "Invalid ELF file: " ++ why.reason
  | imageTooLarge addr len =>
      "Image of " ++ toString len ++ " bytes does not fit in a store at " ++
        Text.address addr.toNat
  | regionOverlap name start =>
      "Region '" ++ name ++ "' at " ++ Text.address start.toNat ++ " overlaps an existing region"
  | emptyRegion name => "Region '" ++ name ++ "' has zero size"
  | repeatedBreakpoint addr => "Repeated breakpoint at " ++ Text.address addr.toNat
  | breakpointNotFound addr => "Breakpoint not found at " ++ Text.address addr.toNat
  | ramTooLarge => "Error: " ++ ramTooLargeText
  | unreadableFile why path =>
      "I/O error on '" ++ path ++ "': " ++ why.description ++ " (os error " ++
        toString why.number ++ ")"

/-- The fault as the command line shows it: the cause by name, with what it is about. -/
def detail : Fault → String
  | invalidImage why => "InvalidElf(" ++ Text.quoted why.reason ++ ")"
  | imageTooLarge addr len =>
      "ImageTooLarge \x7b addr: " ++ toString addr.toNat ++ ", len: " ++ toString len ++ " \x7d"
  | regionOverlap name start =>
      "RegionOverlap \x7b name: " ++ Text.quoted name ++ ", start: " ++ toString start.toNat ++
        " \x7d"
  | emptyRegion name => "EmptyRegion \x7b name: " ++ Text.quoted name ++ " \x7d"
  | repeatedBreakpoint addr => "RepeatedBreakpoint(" ++ toString addr.toNat ++ ")"
  | breakpointNotFound addr => "BreakpointNotFound(" ++ toString addr.toNat ++ ")"
  | ramTooLarge => "Other(" ++ Text.quoted ramTooLargeText ++ ")"
  | unreadableFile why path =>
      "IoError(Os \x7b code: " ++ toString why.number ++ ", kind: " ++ why.kind ++
        ", message: " ++ Text.quoted why.description ++ " \x7d, " ++ Text.quoted path ++ ")"

end Fault

end HomeComputer
