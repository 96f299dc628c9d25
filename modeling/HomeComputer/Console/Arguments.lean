/-
The command line.

Arguments are read from left to right.  An option takes its value from the same
argument, after `=`, or from the next one, which must not look like an option itself.
Options that say one thing may be given once; breakpoints and instruction sets add up.
The first thing that is wrong makes the whole line unusable, and nothing else is said
about it here.

The level of logging is accepted before and after the command's name.
-/
import HomeComputer.Machine

namespace HomeComputer

namespace Console

/-! ### Values -/

/-- The number that decimal digits spell; there must be one at least. -/
def decimal? (cs : List Char) : Option Nat :=
  if cs ≠ [] ∧ cs.all Char.isDigit then
    some (cs.foldl (fun n c => n * 10 + (c.toNat - '0'.toNat)) 0)
  else none

def hexDigit? (c : Char) : Option Nat :=
  if c.isDigit then some (c.toNat - '0'.toNat)
  else if 'a' ≤ c ∧ c ≤ 'f' then some (c.toNat - 'a'.toNat + 10)
  else if 'A' ≤ c ∧ c ≤ 'F' then some (c.toNat - 'A'.toNat + 10)
  else none

/-- The number that hexadecimal digits spell; there must be one at least. -/
def hexadecimal? (cs : List Char) : Option Nat :=
  if cs = [] then none
  else cs.foldlM (fun n c => (hexDigit? c).map (n * 16 + ·)) 0

/-- The characters after a sign `+`, if there is one. -/
def dropPlus : List Char → List Char
  | '+' :: cs => cs
  | cs => cs

/-- A number, if it is below a bound. -/
def below (bound : Nat) (n : Option Nat) : Option Nat := n.filter (· < bound)

/-- A number without sign, or with `+`. -/
def unsigned? (bound : Nat) (s : String) : Option Nat :=
  below bound (decimal? (dropPlus s.toList))

/-- A number that must not be negative but may be written with either sign. -/
def nonnegative? (bound : Nat) (s : String) : Option Nat :=
  match s.toList with
  | '-' :: cs => (decimal? cs).filter (· == 0)
  | cs => below bound (decimal? (dropPlus cs))

/-- An address: decimal, or hexadecimal after `0x`, where `_` may separate digits. -/
def address? (s : String) : Option Word :=
  let n := match s.toList with
    | '0' :: 'x' :: cs => hexadecimal? (dropPlus (cs.filter (· != '_')))
    | '0' :: 'X' :: cs => hexadecimal? (dropPlus (cs.filter (· != '_')))
    | cs => decimal? (dropPlus cs)
  (below 0x100000000 n).map (BitVec.ofNat 32)

def isa? (s : String) : Option (List Extension) := (s.splitOn ",").mapM Extension.ofName?

/-- Whether a text is the name of a level of logging. -/
def isLogLevel (s : String) : Bool := ["off", "error", "warn", "info", "debug", "trace"].contains s

/-! ### Commands -/

/-- What `run` is asked to do. -/
structure RunOptions where
  path : String
  /-- The size of RAM in units of 1024 bytes. -/
  ramKib : Nat := AddressMap.ramSize.toNat / 1024
  /-- Whether a debugger may connect, and under which number. -/
  debug : Option (Option Nat) := none
  halted : Bool := false
  breakpoints : List Word := []
  maxInstructions : Option Nat := none
  alignment : Option Alignment := none
  /-- The instruction sets, if not all. -/
  isa : List Extension := []
  deriving DecidableEq, Repr

/-- What `disasm` is asked to do. -/
structure ListOptions where
  path : String
  /-- Where to begin, if not where execution starts. -/
  base : Option Word := none
  count : Nat := 32
  deriving DecidableEq, Repr

/-- A command line that makes sense. -/
inductive Invocation
  | version
  | help
  | run (o : RunOptions)
  | list (o : ListOptions)
  deriving DecidableEq, Repr

/-! ### Options -/

/-- What an option takes. -/
inductive Arity
  | flag
  | value
  | optional
  deriving DecidableEq, Repr

/-- An option as it stands on the command line, or the path. -/
inductive Item
  | help
  | option (name : String) (value : Option String)
  | path (s : String)
  deriving DecidableEq, Repr

def looksLikeOption (s : String) : Bool := s.startsWith "-" && s != "-"

/-- An option's name and the value given with it after `=`. -/
def splitOption (s : String) : String × Option String :=
  let cs := s.toList.drop 2
  let name := cs.takeWhile (· != '=')
  let rest := cs.dropWhile (· != '=')
  (String.ofList name, match rest with
    | [] => none
    | _ :: value => some (String.ofList value))

/-- The first item of some arguments that are not empty, and the arguments after it. -/
def nextItem? (arity : String → Option Arity) (arg : String) (rest : List String) :
    Option (Item × List String) :=
  if !looksLikeOption arg then some (.path arg, rest)
  else if arg.startsWith "-h" then some (.help, rest)
  else if !arg.startsWith "--" then none
  else
    let (name, attached) := splitOption arg
    if name == "help" then (if attached.isNone then some (.help, rest) else none)
    else
      match arity name, attached, rest with
      | none, _, _ => none
      | some .flag, none, _ => some (.option name none, rest)
      | some .flag, some _, _ => none
      | some _, some value, _ => some (.option name (some value), rest)
      | some a, none, value :: after =>
          if looksLikeOption value then
            if a = .optional then some (.option name none, rest) else none
          else some (.option name (some value), after)
      | some a, none, [] => if a = .optional then some (.option name none, []) else none

/-- The items of a command's arguments, each taken up in turn by `take`.  After `--` every
argument is a path.  A request for help ends the reading. -/
def readItems {α : Type} (arity : String → Option Arity) (take : α → Item → Option α) :
    α → List String → Nat → Option (α ⊕ Unit)
  | a, [], _ => some (.inl a)
  | _, _, 0 => none
  | a, arg :: rest, fuel + 1 =>
      if arg == "--" then
        (rest.foldlM (fun a s => take a (.path s)) a).map .inl
      else
        match nextItem? arity arg rest with
        | none => none
        | some (.help, _) => some (.inr ())
        | some (item, rest) =>
            match take a item with
            | none => none
            | some a => readItems arity take a rest fuel

/-- Options seen so far, to notice those given twice, and what they add up to. -/
structure Draft (α : Type) where
  /-- The options as far as they are known. -/
  options : α
  /-- Which single options, the path among them, have been given. -/
  seen : List String := []

/-- The draft after a single option was given, if it had not been. -/
def Draft.once {α : Type} (d : Draft α) (name : String) (options : Option α) :
    Option (Draft α) :=
  if d.seen.contains name then none
  else options.map fun options => { options, seen := name :: d.seen }

/-- The draft after an option was given that may come again. -/
def Draft.more {α : Type} (d : Draft α) (options : Option α) : Option (Draft α) :=
  options.map fun options => { d with options }

def runArity : String → Option Arity
  | "halted" => some .flag
  | "gdb" => some .optional
  | "ram-kib" | "break" | "max-insns" | "unaligned" | "isa" | "log" => some .value
  | _ => none

def takeRun (d : Draft RunOptions) : Item → Option (Draft RunOptions)
  | .path "" => none
  | .path path => d.once "" (some { d.options with path })
  | .option "halted" none => d.once "halted" (some { d.options with halted := true })
  | .option "gdb" none => d.once "gdb" (some { d.options with debug := some none })
  | .option "gdb" (some v) => d.once "gdb"
      ((nonnegative? 0x10000 v).map fun n => { d.options with debug := some (some n) })
  | .option "ram-kib" (some v) => d.once "ram-kib"
      ((nonnegative? 0x100000000 v).map fun ramKib => { d.options with ramKib })
  | .option "break" (some v) => d.more
      ((address? v).map fun a => { d.options with breakpoints := d.options.breakpoints ++ [a] })
  | .option "max-insns" (some v) => d.once "max-insns"
      ((unsigned? 0x10000000000000000 v).map fun n => { d.options with maxInstructions := some n })
  | .option "unaligned" (some v) => d.once "unaligned"
      ((Alignment.ofName? v).map fun a => { d.options with alignment := some a })
  | .option "isa" (some v) => d.more
      ((isa? v).map fun sets => { d.options with isa := d.options.isa ++ sets })
  | .option "log" (some v) => d.once "log" (if isLogLevel v then some d.options else none)
  | _ => none

def listArity : String → Option Arity
  | "base" | "count" | "log" => some .value
  | _ => none

def takeList (d : Draft ListOptions) : Item → Option (Draft ListOptions)
  | .path "" => none
  | .path path => d.once "" (some { d.options with path })
  | .option "base" (some v) => d.once "base"
      ((address? v).map fun a => { d.options with base := some a })
  | .option "count" (some v) => d.once "count"
      ((nonnegative? 0x100000000 v).map fun count => { d.options with count })
  | .option "log" (some v) => d.once "log" (if isLogLevel v then some d.options else none)
  | _ => none

/-- The options that a command's arguments add up to, if the path is among them. -/
def command {α : Type} (arity : String → Option Arity)
    (take : Draft α → Item → Option (Draft α)) (make : α → Invocation) (options : α)
    (args : List String) : Option Invocation :=
  match readItems arity take { options } args args.length with
  | none => none
  | some (.inr ()) => some .help
  | some (.inl d) => if d.seen.contains "" then some (make d.options) else none

/-- What `help` has something to say about. -/
def topics : List String := ["run", "disasm", "help"]

/-- What a command line asks for, if it makes sense; `logged` tells whether the level of
logging has been chosen. -/
def parseFrom (logged : Bool) : List String → Option Invocation
  | [] => none
  | "run" :: args => command runArity takeRun .run { path := "" } args
  | "disasm" :: args => command listArity takeList .list { path := "" } args
  | ["help"] => some .help
  | ["help", topic] => if topics.contains topic then some .help else none
  | arg :: rest =>
      if arg == "--version" || arg.startsWith "-V" then some .version
      else if arg == "--help" || arg.startsWith "-h" then some .help
      else if logged then none
      else if arg == "--log" then
        match rest with
        | v :: rest => if isLogLevel v then parseFrom true rest else none
        | [] => none
      else if arg.startsWith "--log=" then
        if isLogLevel (String.ofList (arg.toList.drop 6)) then parseFrom true rest else none
      else none

/-- What a command line asks for, if it makes sense. -/
def parse (args : List String) : Option Invocation := parseFrom false args

end Console

end HomeComputer
