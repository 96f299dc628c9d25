/-
Running a program from the command line.

The program runs in turns of at most 1024 instructions.  After each turn what the
program sent over its link is written out, so output appears while the program runs.
The session ends when the chosen number of instructions is reached, at a breakpoint,
or when the hart is halted and nothing will start it again; then it reports where the
program stands.

A turn is a function from one state of the session to the next.  Whoever drives the
session only repeats it.
-/
import HomeComputer.Console.Arguments

namespace HomeComputer

namespace Console

/-- What a command leaves behind: its exit code and what it wrote. -/
structure Report where
  code : Nat := 0
  output : List Byte := []
  notes : String := ""
  deriving DecidableEq, Repr

/-- What a command leaves behind that failed. -/
def Report.failure (fault : Fault) : Report :=
  { code := 1, notes := "Error: " ++ fault.detail ++ "\n" }

def turnSize : Nat := 1024

namespace RunOptions

/-- The instruction sets of the hart: the chosen ones, each once, or all. -/
def extensions (o : RunOptions) : List Extension :=
  if o.isa.isEmpty then Extension.full
  else o.isa.foldl (fun sets e => if sets.contains e then sets else sets ++ [e]) []

def config (o : RunOptions) : Except Fault Config :=
  if o.ramKib * 1024 < 0x100000000 then
    .ok {
      ramSize := BitVec.ofNat 32 (o.ramKib * 1024)
      alignment := o.alignment.getD Alignment.standard
      isa := o.extensions }
  else .error .ramTooLarge

def isDebugging (o : RunOptions) : Bool := o.debug.isSome

/-- The name of a breakpoint from the command line. -/
def breakpointName (addr : Word) : String := "--break " ++ Text.address addr.toNat

/-- The computer with the chosen breakpoints. -/
def withBreakpoints (m : Machine Devices) : List Word → Except Fault (Machine Devices)
  | [] => .ok m
  | addr :: addrs =>
      match m.control.addBreakpoint addr (some (breakpointName addr)) .local with
      | .error fault => .error fault
      | .ok control => withBreakpoints { m with control } addrs

/-- The computer with the image loaded, ready to start. -/
def prepare (o : RunOptions) (image : List Byte) : Except Fault (Machine Devices) := do
  let config ← o.config
  let m ← Machine.new config {}
  match m.loadImage image with
  | (.error fault, _) => .error fault
  | (.ok _, m) =>
      let m ← withBreakpoints m o.breakpoints
      return if o.halted then m else m.go

end RunOptions

/-- A session: the computer and how many instructions it has completed. -/
structure Session where
  machine : Machine Devices
  total : Nat := 0

namespace Session

/-- What becomes of a session in one turn. -/
inductive Turn
  /-- It goes on, after writing some output. -/
  | more (output : List Byte) (s : Session)
  /-- It ends, after writing some output and notes. -/
  | done (output : List Byte) (notes : String) (s : Session)

/-- How many instructions the next turn of at most `size` may complete; none if the session
is to end. -/
def budget (o : RunOptions) (s : Session) (size : Nat) : Nat :=
  match o.maxInstructions with
  | none => size
  | some limit => min (limit - s.total) size

/-- What is said of a breakpoint that was met. -/
def breakpointNote (m : Machine Devices) (pc : Word) : String :=
  "[rvbox] breakpoint at " ++ Text.fullWord pc.toNat ++ ": " ++
    (m.disassembleAt pc).getD "" ++ "\n"

def summary (s : Session) : String :=
  "[rvbox] " ++ toString s.total ++ " instructions retired, pc = " ++
    Text.fullWord s.machine.pc.toNat ++ ", a0 = " ++
    Text.fullWord (s.machine.hart.registers.get 10#5).toNat ++ "\n"

/-- One turn: some instructions, the output they made, and whether to go on. -/
def turn (o : RunOptions) (s : Session) (size : Nat := turnSize) : Turn :=
  let budget := s.budget o size
  if budget = 0 then .done [] "" s
  else
    let (outcome, m) := s.machine.run budget
    let (output, devices) := m.map.devices.takeSent
    let s : Session := {
      machine := { m with map := { m.map with devices } }
      total := s.total + outcome.retired }
    if o.isDebugging then .more output s
    else
      match outcome.breakpoint with
      | some pc => .done output (breakpointNote s.machine pc) s
      | none =>
          if !s.machine.control.isRunning && outcome.retired == 0 then .done output "" s
          else .more output s

/-- Up to `turns` turns.  Answers the output of all of them, and notes and session if it
has ended. -/
def turnsFrom (o : RunOptions) (size : Nat) (s : Session) :
    Nat → List Byte × Option (String × Session)
  | 0 => ([], none)
  | turns + 1 =>
      match s.turn o size with
      | .done output notes s => (output, some (notes, s))
      | .more output s =>
          let (rest, ending) := turnsFrom o size s turns
          (output ++ rest, ending)

end Session

/-- Runs an image for up to `turns` turns of at most `size` instructions.  Answers what it
leaves behind, if it has ended by then. -/
def run (o : RunOptions) (image : List Byte) (turns : Nat) (size : Nat := turnSize) :
    Option Report :=
  match o.prepare image with
  | .error fault => some (Report.failure fault)
  | .ok machine =>
      match Session.turnsFrom o size { machine } turns with
      | (_, none) => none
      | (output, some (notes, s)) => some { output, notes := notes ++ s.summary }

end Console

end HomeComputer
