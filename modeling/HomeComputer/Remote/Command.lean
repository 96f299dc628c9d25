/-
The debugger's commands.

The payload of a packet is a command: a letter and its arguments.  `Command.parse`
reads every payload as some command.  One that starts like a command it knows but goes
on wrongly is `malformed`, and whatever it does not know is `unsupported`; the two are
answered differently.

A few questions have the same answer every time, and are recognised before anything
else.
-/
import HomeComputer.Remote.Hex
import HomeComputer.Text

namespace HomeComputer

/-- What a debugger asks for. -/
inductive Command
  | stopReason
  | readRegisters
  /-- Set all registers, from their bytes in order. -/
  | writeRegisters (data : List Byte)
  | readRegister (number : Word)
  | writeRegister (number value : Word)
  | readMemory (addr len : Word)
  | writeMemory (addr : Word) (data : List Byte)
  | insertBreakpoint (addr : Word)
  | removeBreakpoint (addr : Word)
  | resume (addr : Option Word)
  /-- Run one instruction, perhaps at another address. -/
  | step (addr : Option Word)
  | detach
  /-- End the session without an answer. -/
  | kill
  /-- A question that is always answered alike. -/
  | canned (reply : String)
  /-- A known command with wrong arguments. -/
  | malformed
  | unsupported
  deriving DecidableEq, Repr

namespace Command

/-- The parts before and after the first separator. -/
def splitOnce (sep : Byte) : List Byte → Option (List Byte × List Byte)
  | [] => none
  | b :: bs =>
      if b = sep then some ([], bs)
      else (splitOnce sep bs).map fun (before, after) => (b :: before, after)

def comma : Byte := 0x2c#8

def colon : Byte := 0x3a#8

def equals : Byte := 0x3d#8

def addressLength? (args : List Byte) : Option (Word × Word) := do
  let (addr, len) ← splitOnce comma args
  return (← Hex.number? addr, ← Hex.number? len)

/-- An address that may be left out. -/
def optionalAddress? (args : List Byte) : Option (Option Word) :=
  if args.isEmpty then some none else (Hex.number? args).map some

/-- The value of a register as a debugger sends it: its four bytes, low end first. -/
def registerValue? (text : List Byte) : Option Word := do
  Word.ofBytes? (← Hex.decode? text)

def starts (payload : List Byte) (s : String) : Bool := (Text.ascii s).isPrefixOf payload

def isText (payload : List Byte) (s : String) : Bool := payload == Text.ascii s

/-- The answer to a question that is always answered alike. -/
def canned? (payload : List Byte) : Option String :=
  if starts payload "qSupported" then some "PacketSize=1000"
  else if isText payload "qAttached" || starts payload "qAttached:" then some "1"
  else if isText payload "qTStatus" then some "T0"
  else if isText payload "qC" then some "QC1"
  else if isText payload "qOffsets" then some "Text=0;Data=0;Bss=0"
  else if starts payload "qSymbol" then some "OK"
  else if starts payload "Hg" || starts payload "Hc" then some "OK"
  else none

def writeRegister? (args : List Byte) : Option Command := do
  let (number, value) ← splitOnce equals args
  return writeRegister (← Hex.number? number) (← registerValue? value)

/-- A range of memory and exactly as much data. -/
def writeMemory? (args : List Byte) : Option Command := do
  let (range, text) ← splitOnce colon args
  let (addr, len) ← addressLength? range
  let data ← Hex.decode? text
  if data.length = len.toNat then some (writeMemory addr data) else none

/-- A breakpoint's kind, address and size; only kind 0 is known, and the size is not looked at. -/
def breakpoint (make : Word → Command) (args : List Byte) : Command :=
  match splitOnce comma args with
  | none => malformed
  | some (kind, rest) =>
      if isText kind "0" then
        match (splitOnce comma rest).bind fun (addr, _) => Hex.number? addr with
        | none => malformed
        | some addr => make addr
      else unsupported

def ofLetter (letter : Char) (args : List Byte) : Command :=
  match letter with
  | '?' => if args.isEmpty then stopReason else unsupported
  | 'g' => if args.isEmpty then readRegisters else unsupported
  | 'G' => ((Hex.decode? args).map writeRegisters).getD malformed
  | 'p' => ((Hex.number? args).map readRegister).getD malformed
  | 'P' => (writeRegister? args).getD malformed
  | 'm' => ((addressLength? args).map fun (addr, len) => readMemory addr len).getD malformed
  | 'M' => (writeMemory? args).getD malformed
  | 'Z' => breakpoint insertBreakpoint args
  | 'z' => breakpoint removeBreakpoint args
  | 'c' => ((optionalAddress? args).map resume).getD malformed
  | 's' => ((optionalAddress? args).map step).getD malformed
  | 'D' => detach
  | 'k' => kill
  | _ => unsupported

/-- The command that a payload asks for. -/
def parse (payload : List Byte) : Command :=
  match canned? payload with
  | some reply => canned reply
  | none =>
      match payload with
      | [] => unsupported
      | letter :: args => ofLetter (Char.ofNat letter.toNat) args

end Command

end HomeComputer
