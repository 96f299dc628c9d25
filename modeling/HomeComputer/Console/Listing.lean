/-
Listing an image from the command line.

The image is loaded into a computer, and its words are shown one to a line as far as
there are any: address, word and assembly text.  Where memory ends a last line says so.
-/
import HomeComputer.Console.Session

namespace HomeComputer

namespace Console

def wordLine (addr w : Word) (text : String) : String :=
  Text.paddedHex 8 addr.toNat ++ ":  " ++ Text.paddedHex 8 w.toNat ++ "  " ++ text

def unmappedLine (addr : Word) : String := Text.paddedHex 8 addr.toNat ++ ":  <unmapped>"

/-- The lines for up to `count` words from an address on. -/
def linesFrom (m : Machine Devices) (addr : Word) : Nat → List String
  | 0 => []
  | count + 1 =>
      match m.map.peek addr, m.disassembleAt addr with
      | some w, some text => wordLine addr w text :: linesFrom m (addr + 4#32) count
      | _, _ => [unmappedLine addr]

def listing (o : ListOptions) (image : List Byte) : Except Fault (List String) := do
  let m ← Machine.new {} ({} : Devices)
  match m.loadImage image with
  | (.error fault, _) => .error fault
  | (.ok entry, m) => return linesFrom m (o.base.getD entry).aligned o.count

def list (o : ListOptions) (image : List Byte) : Report :=
  match listing o image with
  | .error fault => Report.failure fault
  | .ok lines => { output := lines.flatMap fun l => Text.ascii (l ++ "\n") }

/-! ### Whole command lines -/

def versionText : String := "rvbox 0.1.0\n"

def helpText : String :=
  "Usage: [--log LEVEL] run <PATH> [--ram-kib N] [--gdb [N]] [--halted] [--break ADDR]...\n" ++
  "           [--max-insns N] [--unaligned split|force] [--isa LIST]\n" ++
  "       [--log LEVEL] disasm <PATH> [--base ADDR] [--count N]\n"

def Invocation.path? : Invocation → Option String
  | .run o => some o.path
  | .list o => some o.path
  | .version => none
  | .help => none

/-- Carries out a command line, given the content of its file.  A program that runs gets
up to `turns` turns. -/
def Invocation.report (i : Invocation) (image : Except FileFault (List Byte)) (turns : Nat) :
    Option Report :=
  match i, image with
  | .version, _ => some { output := Text.ascii versionText }
  | .help, _ => some { output := Text.ascii helpText }
  | .run o, .error why => some (Report.failure (.unreadableFile why o.path))
  | .list o, .error why => some (Report.failure (.unreadableFile why o.path))
  | .run o, .ok image => Console.run o image turns
  | .list o, .ok image => some (Console.list o image)

/-- What a command line that makes no sense leaves behind. -/
def usageError : Report := { code := 2, notes := helpText }

end Console

end HomeComputer
