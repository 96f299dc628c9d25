/-
Breakpoints.

A breakpoint belongs to whoever made it, and a debug session may hold it as well.
While the session holds it, the breakpoint is armed; the setting that its owner gave
it is kept in `ownEnabled` and comes back when the session lets go.  A breakpoint that
the session made itself goes away instead.

The table is an extensional map: two tables are equal exactly when they hold the same
breakpoints, however they came about.
-/
import HomeComputer.Word
import Std.Data.ExtTreeMap

namespace HomeComputer

/-- Who made a breakpoint. -/
inductive Origin
  | «local»
  | debugger
  deriving DecidableEq, Repr

/-- A breakpoint. -/
structure Breakpoint where
  addr : Word
  enabled : Bool := true
  name : Option String := none
  origin : Origin
  /-- Whether a debug session holds it. -/
  held : Bool
  /-- What its owner set `enabled` to. -/
  ownEnabled : Bool := true
  deriving DecidableEq, Repr

namespace Breakpoint

/-- A new breakpoint; one made by a debug session is held by it. -/
def make (addr : Word) (name : Option String) (origin : Origin) : Breakpoint :=
  { addr, name, origin, held := origin == .debugger }

/-- The breakpoint in the hands of the debug session, and armed. -/
def claim (b : Breakpoint) : Breakpoint :=
  { b with held := true, enabled := true, ownEnabled := if b.held then b.ownEnabled else b.enabled }

/-- What is left of the breakpoint when the debug session lets go of it. -/
def release (b : Breakpoint) : Option Breakpoint :=
  match b.origin with
  | .debugger => none
  | .local => some { b with held := false, enabled := b.ownEnabled }

/-- The breakpoint with the setting its owner chose, which also counts at once. -/
def setEnabled (b : Breakpoint) (enabled : Bool) : Breakpoint :=
  { b with enabled, ownEnabled := enabled }

end Breakpoint

/-- Breakpoints by their addresses. -/
abbrev Breakpoints := Std.ExtTreeMap Word Breakpoint

namespace Breakpoints

/-- The table with a debug session's breakpoint at an address, be it a claimed one. -/
def claimAt (t : Breakpoints) (addr : Word) : Breakpoints :=
  match t[addr]? with
  | some b => t.insert addr b.claim
  | none => t.insert addr (Breakpoint.make addr none .debugger)

/-- The table with the debug session's hold on an address given up. -/
def releaseAt (t : Breakpoints) (addr : Word) : Breakpoints :=
  match t[addr]? with
  | none => t
  | some b =>
      if b.held then
        match b.release with
        | none => t.erase addr
        | some b => t.insert addr b
      else t

/-- Whether the debug session holds a breakpoint at an address. -/
def heldAt (t : Breakpoints) (addr : Word) : Bool := t[addr]?.any (·.held)

/-- The table with every hold of the debug session given up. -/
def releaseAll (t : Breakpoints) : Breakpoints :=
  Std.ExtTreeMap.filterMap (fun _ b => if b.held then b.release else some b) t

/-- The table without the breakpoints of an origin, or without any. -/
def clear (t : Breakpoints) : Option Origin → Breakpoints
  | none => {}
  | some origin => Std.ExtTreeMap.filter (fun _ b => b.origin != origin) t

/-- Whether an enabled breakpoint sits at an address. -/
def stopsAt (t : Breakpoints) (addr : Word) : Bool := t[addr]?.any (·.enabled)

/-- The breakpoints in the order of their addresses. -/
def list (t : Breakpoints) : List Breakpoint := t.toList.map Prod.snd

end Breakpoints

end HomeComputer
