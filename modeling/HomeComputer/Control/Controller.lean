/-
The controller.

The controller decides at every instruction boundary whether the hart may go on.  It
knows nothing of the hart: it is asked `shouldBreak` before an instruction and told
`retired` after it.

A breakpoint that stopped the hart is still there when the hart is to go on, so the
controller remembers where it stopped last and lets that address pass until an
instruction has completed.

Whoever listens is told of every stop of a running hart.  Notices wait in the order
they were given until the listener they are for collects them.
-/
import HomeComputer.Control.Breakpoint
import HomeComputer.Fault

namespace HomeComputer

inductive Mode
  | halted
  | step
  | running
  deriving DecidableEq, Repr

/-- Why a running hart stopped. -/
inductive StopReason
  | breakpoint (addr : Word)
  | interrupted
  | requested
  deriving DecidableEq, Repr

/-- Who can be told of stops. -/
inductive Listener
  | host
  | debugger
  deriving DecidableEq, Repr

/-- What a listener is told. -/
structure Notice where
  listener : Listener
  reason : StopReason
  pc : Word
  deriving DecidableEq, Repr

/-- Mode, breakpoints and the listener. -/
structure Controller where
  mode : Mode := .halted
  breakpoints : Breakpoints := {}
  breakpointsEnabled : Bool := true
  /-- The breakpoint that stopped the hart, until an instruction completes. -/
  lastBreak : Option Word := none
  listener : Option Listener := none
  /-- What was told and not yet collected, oldest first. -/
  notices : List Notice := []

namespace Controller

def isRunning (c : Controller) : Bool := c.mode == .running

/-! ### Modes -/

/-- The controller after its listener, if there is one, was told of a stop. -/
def notify (c : Controller) (reason : StopReason) (pc : Word) : Controller :=
  match c.listener with
  | none => c
  | some listener => { c with notices := c.notices ++ [{ listener, reason, pc }] }

/-- Stops the hart; only a running hart's stop is told.  Answers whether it was running. -/
def halt (c : Controller) (reason : StopReason) (pc : Word) : Bool × Controller :=
  if c.isRunning then (true, { c.notify reason pc with mode := .halted })
  else (false, { c with mode := .halted })

def stepInto (c : Controller) : Controller := { c with mode := .step }

def go (c : Controller) : Controller := { c with mode := .running }

/-! ### Breakpoints -/

def breakpoint? (c : Controller) (addr : Word) : Option Breakpoint := c.breakpoints[addr]?

/-- Makes a breakpoint where there is none. -/
def addBreakpoint (c : Controller) (addr : Word) (name : Option String) (origin : Origin) :
    Except Fault Controller :=
  match c.breakpoint? addr with
  | some _ => .error (.repeatedBreakpoint addr)
  | none =>
      .ok { c with breakpoints := c.breakpoints.insert addr (Breakpoint.make addr name origin) }

/-- Puts a debug session's breakpoint at an address, claiming the one that is there. -/
def debuggerInsert (c : Controller) (addr : Word) : Controller :=
  { c with breakpoints := c.breakpoints.claimAt addr }

/-- Gives up a debug session's breakpoint.  Answers whether there was one. -/
def debuggerRemove (c : Controller) (addr : Word) : Bool × Controller :=
  (c.breakpoints.heldAt addr, { c with breakpoints := c.breakpoints.releaseAt addr })

/-- Takes a breakpoint away, whoever made or holds it. -/
def removeBreakpoint (c : Controller) (addr : Word) : Except Fault (Breakpoint × Controller) :=
  match c.breakpoint? addr with
  | none => .error (.breakpointNotFound addr)
  | some b => .ok (b, { c with breakpoints := c.breakpoints.erase addr })

def enableBreakpoint (c : Controller) (addr : Word) (enabled : Bool) : Except Fault Controller :=
  match c.breakpoint? addr with
  | none => .error (.breakpointNotFound addr)
  | some b => .ok { c with breakpoints := c.breakpoints.insert addr (b.setEnabled enabled) }

def setBreakpointsEnabled (c : Controller) (enabled : Bool) : Controller :=
  { c with breakpointsEnabled := enabled }

/-- Takes away the breakpoints of an origin, or all of them. -/
def clearBreakpoints (c : Controller) (origin : Option Origin) : Controller :=
  { c with breakpoints := c.breakpoints.clear origin }

/-! ### Instruction boundaries -/

/-- Whether the boundary at `pc` is one to stop at. -/
def stopsAt (c : Controller) (pc : Word) : Bool :=
  c.isRunning && c.breakpointsEnabled && c.breakpoints.stopsAt pc && c.lastBreak != some pc

/-- Stops a running hart at a breakpoint.  Answers whether it did. -/
def shouldBreak (c : Controller) (pc : Word) : Bool × Controller :=
  if c.stopsAt pc then (true, (halt { c with lastBreak := some pc } (.breakpoint pc) pc).2)
  else (false, c)

/-- An instruction has completed; a single step is over. -/
def retired (c : Controller) : Controller :=
  { c with lastBreak := none, mode := if c.mode = .step then .halted else c.mode }

/-! ### Listeners and sessions -/

/-- Makes someone the listener, in place of whoever listened before. -/
def listen (c : Controller) (l : Listener) : Controller := { c with listener := some l }

def unlisten (c : Controller) : Controller := { c with listener := none }

/-- The notices for a listener, and the controller without them. -/
def collect (c : Controller) (l : Listener) : List Notice × Controller :=
  (c.notices.filter (·.listener == l),
    { c with notices := c.notices.filter (·.listener != l) })

/-- Undoes what a debug session installed and halts, telling nobody. -/
def resetSession (c : Controller) : Controller :=
  { c with listener := none, breakpoints := c.breakpoints.releaseAll, mode := .halted }

end Controller

end HomeComputer
