/-
What a controller can be asked, in any order.

A controller is used through a dozen operations, by the host, by the hart and by a debug
session, and nothing orders them.  `Request` lists the operations with their arguments, and a
history of use is a list of requests, served from left to right.

What makes histories tractable is that every request treats every address on its own: what
becomes of the breakpoint at an address depends on the request and on that breakpoint alone,
not on the rest of the table, the mode or the listener.  `Request.entry` is this effect at one
address and `breakpoint?_serve` says that it is all that happens there, so a statement about
breakpoints after any history is an induction over one entry.
-/
import HomeComputer.Control.Controller

namespace HomeComputer

/-! ### One entry of the table -/

namespace Breakpoint

/-- What is left of a breakpoint when a debug session gives up whatever it holds. -/
def letGo (b : Breakpoint) : Option Breakpoint := if b.held then b.release else some b

end Breakpoint

namespace Breakpoints

variable (t : Breakpoints)

theorem getElem?_insert_word (a k : Word) (b : Breakpoint) :
    (t.insert a b)[k]? = if a = k then some b else t[k]? := by
  simp [Std.ExtTreeMap.getElem?_insert]

theorem getElem?_erase_word (a k : Word) :
    (t.erase a)[k]? = if a = k then none else t[k]? := by
  simp [Std.ExtTreeMap.getElem?_erase]

/-- A claim concerns the address that is claimed. -/
theorem getElem?_claimAt (a k : Word) :
    (t.claimAt a)[k]? =
      if a = k then some ((t[k]?.map Breakpoint.claim).getD (Breakpoint.make k none .debugger))
      else t[k]? := by
  unfold claimAt
  by_cases hak : a = k
  · subst hak
    cases h : t[a]? with
    | none => simp
    | some b => simp
  · cases h : t[a]? with
    | none => simp only [getElem?_insert_word, if_neg hak]
    | some b => simp only [getElem?_insert_word, if_neg hak]

theorem getElem?_releaseAt (a k : Word) :
    (t.releaseAt a)[k]? = if a = k then t[k]?.bind Breakpoint.letGo else t[k]? := by
  unfold releaseAt
  cases h : t[a]? with
  | none =>
      by_cases hak : a = k
      · subst hak
        simp [h]
      · simp only [if_neg hak]
  | some b =>
      by_cases hheld : b.held = true
      · simp only [if_pos hheld]
        by_cases hak : a = k
        · subst hak
          cases hr : b.release with
          | none => simp [h, Breakpoint.letGo, hheld, hr]
          | some b' => simp [h, Breakpoint.letGo, hheld, hr]
        · cases b.release with
          | none => simp only [getElem?_erase_word, if_neg hak]
          | some b' => simp only [getElem?_insert_word, if_neg hak]
      · simp only [if_neg hheld]
        by_cases hak : a = k
        · subst hak
          simp [h, Breakpoint.letGo, hheld]
        · simp only [if_neg hak]

theorem getElem?_releaseAll (k : Word) : t.releaseAll[k]? = t[k]?.bind Breakpoint.letGo := by
  unfold releaseAll
  simp only [Std.ExtTreeMap.getElem?_filterMap, Option.pbind_eq_bind]
  rfl

/-- Whether clearing takes a breakpoint away: all go, or those of one origin. -/
def Cleared (b : Breakpoint) (origin : Option Origin) : Prop :=
  origin = none ∨ origin = some b.origin

instance (b : Breakpoint) (origin : Option Origin) : Decidable (Cleared b origin) :=
  inferInstanceAs (Decidable (_ ∨ _))

theorem getElem?_clear (origin : Option Origin) (k : Word) :
    (t.clear origin)[k]? = t[k]?.filter fun b => !decide (Cleared b origin) := by
  cases origin with
  | none =>
      have hall : (fun b => !decide (Cleared b none)) = fun _ => false := by
        funext b
        simp [Cleared]
      simp [clear, hall]
  | some o =>
      have hothers : (fun b => !decide (Cleared b (some o))) = fun b => b.origin != o := by
        funext b
        by_cases ho : o = b.origin
        · simp [Cleared, ho]
        · simp [Cleared, ho, Ne.symm ho]
      rw [hothers]
      unfold clear
      simp [Std.ExtTreeMap.getElem?_filter]

end Breakpoints

/-! ### Requests -/

/-- What can be asked of a controller. -/
inductive Request
  | addBreakpoint (addr : Word) (name : Option String) (origin : Origin)
  | debuggerInsert (addr : Word)
  | debuggerRemove (addr : Word)
  | enableBreakpoint (addr : Word) (enabled : Bool)
  | setBreakpointsEnabled (enabled : Bool)
  | removeBreakpoint (addr : Word)
  | clearBreakpoints (origin : Option Origin)
  | go
  | stepInto
  | halt (reason : StopReason) (pc : Word)
  | shouldBreak (pc : Word)
  | retired
  | listen (l : Listener)
  | unlisten
  | collect (l : Listener)
  | resetSession

namespace Controller

/-- The controller after a request; one that is refused leaves it alone. -/
def serve (c : Controller) : Request → Controller
  | .addBreakpoint addr name origin => (c.addBreakpoint addr name origin).toOption.getD c
  | .debuggerInsert addr => c.debuggerInsert addr
  | .debuggerRemove addr => (c.debuggerRemove addr).2
  | .enableBreakpoint addr enabled => (c.enableBreakpoint addr enabled).toOption.getD c
  | .setBreakpointsEnabled enabled => c.setBreakpointsEnabled enabled
  | .removeBreakpoint addr => ((c.removeBreakpoint addr).toOption.map Prod.snd).getD c
  | .clearBreakpoints origin => c.clearBreakpoints origin
  | .go => c.go
  | .stepInto => c.stepInto
  | .halt reason pc => (c.halt reason pc).2
  | .shouldBreak pc => (c.shouldBreak pc).2
  | .retired => c.retired
  | .listen l => c.listen l
  | .unlisten => c.unlisten
  | .collect l => (c.collect l).2
  | .resetSession => c.resetSession

/-- The controller after a history of requests. -/
def serveAll (c : Controller) (requests : List Request) : Controller := requests.foldl serve c

end Controller

namespace Request

/-- What a request makes of the entry at an address. -/
def entry (addr : Word) (e : Option Breakpoint) : Request → Option Breakpoint
  | addBreakpoint a name origin =>
      if a = addr then some (e.getD (Breakpoint.make addr name origin)) else e
  | debuggerInsert a =>
      if a = addr then some ((e.map Breakpoint.claim).getD (Breakpoint.make addr none .debugger))
      else e
  | debuggerRemove a => if a = addr then e.bind Breakpoint.letGo else e
  | enableBreakpoint a enabled => if a = addr then e.map (·.setEnabled enabled) else e
  | removeBreakpoint a => if a = addr then none else e
  | clearBreakpoints origin => e.filter fun b => !decide (Breakpoints.Cleared b origin)
  | resetSession => e.bind Breakpoint.letGo
  | setBreakpointsEnabled _ | go | stepInto | halt _ _ | shouldBreak _ | retired | listen _
  | unlisten | collect _ => e

end Request

namespace Controller

/-! ### The effect at one address -/

variable (c : Controller)

theorem breakpoints_notify (reason : StopReason) (pc : Word) :
    (c.notify reason pc).breakpoints = c.breakpoints := by
  unfold notify
  cases c.listener <;> rfl

theorem breakpoints_halt (reason : StopReason) (pc : Word) :
    (c.halt reason pc).2.breakpoints = c.breakpoints := by
  unfold halt
  by_cases hrunning : c.isRunning = true
  · rw [if_pos hrunning]
    exact c.breakpoints_notify reason pc
  · rw [if_neg hrunning]

theorem breakpoints_shouldBreak (pc : Word) :
    (c.shouldBreak pc).2.breakpoints = c.breakpoints := by
  unfold shouldBreak
  by_cases hstops : c.stopsAt pc = true
  · rw [if_pos hstops]
    exact breakpoints_halt { c with lastBreak := some pc } (.breakpoint pc) pc
  · rw [if_neg hstops]

theorem breakpoint?_insert (a : Word) (b : Breakpoint) (k : Word) :
    breakpoint? { c with breakpoints := c.breakpoints.insert a b } k =
      if a = k then some b else c.breakpoint? k :=
  c.breakpoints.getElem?_insert_word a k b

theorem breakpoint?_addBreakpoint (a : Word) (name : Option String) (origin : Origin) (k : Word) :
    (c.serve (.addBreakpoint a name origin)).breakpoint? k =
      if a = k then some ((c.breakpoint? k).getD (Breakpoint.make k name origin))
      else c.breakpoint? k := by
  simp only [serve, addBreakpoint]
  cases h : c.breakpoint? a with
  | none =>
      show breakpoint? { c with breakpoints := c.breakpoints.insert a _ } k = _
      rw [breakpoint?_insert]
      by_cases hak : a = k
      · subst hak
        simp [h]
      · simp only [if_neg hak]
  | some b =>
      show c.breakpoint? k = _
      by_cases hak : a = k
      · subst hak
        simp [h]
      · simp only [if_neg hak]

theorem breakpoint?_enableBreakpoint (a : Word) (enabled : Bool) (k : Word) :
    (c.serve (.enableBreakpoint a enabled)).breakpoint? k =
      if a = k then (c.breakpoint? k).map (·.setEnabled enabled) else c.breakpoint? k := by
  simp only [serve, enableBreakpoint]
  cases h : c.breakpoint? a with
  | none =>
      show c.breakpoint? k = _
      by_cases hak : a = k
      · subst hak
        simp [h]
      · simp only [if_neg hak]
  | some b =>
      show breakpoint? { c with breakpoints := c.breakpoints.insert a _ } k = _
      rw [breakpoint?_insert]
      by_cases hak : a = k
      · subst hak
        simp [h]
      · simp only [if_neg hak]

theorem breakpoint?_removeBreakpoint (a k : Word) :
    (c.serve (.removeBreakpoint a)).breakpoint? k = if a = k then none else c.breakpoint? k := by
  simp only [serve, removeBreakpoint]
  cases h : c.breakpoint? a with
  | none =>
      show c.breakpoint? k = _
      by_cases hak : a = k
      · subst hak
        simp [h]
      · simp only [if_neg hak]
  | some b => exact c.breakpoints.getElem?_erase_word a k

/-- A request does to the entry at an address what `Request.entry` says, whatever else the
controller holds. -/
theorem breakpoint?_serve (r : Request) (k : Word) :
    (c.serve r).breakpoint? k = r.entry k (c.breakpoint? k) := by
  cases r with
  | addBreakpoint a name origin => exact c.breakpoint?_addBreakpoint a name origin k
  | debuggerInsert a => exact c.breakpoints.getElem?_claimAt a k
  | debuggerRemove a => exact c.breakpoints.getElem?_releaseAt a k
  | enableBreakpoint a enabled => exact c.breakpoint?_enableBreakpoint a enabled k
  | removeBreakpoint a => exact c.breakpoint?_removeBreakpoint a k
  | clearBreakpoints origin => exact c.breakpoints.getElem?_clear origin k
  | halt reason pc => exact congrArg (·[k]?) (c.breakpoints_halt reason pc)
  | shouldBreak pc => exact congrArg (·[k]?) (c.breakpoints_shouldBreak pc)
  | resetSession => exact c.breakpoints.getElem?_releaseAll k
  | setBreakpointsEnabled _ | go | stepInto | retired | listen _ | unlisten | collect _ => rfl

end Controller

end HomeComputer
