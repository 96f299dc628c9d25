/-
Whether a new breakpoint stops the hart.

A breakpoint that stopped the hart must not stop it again before an instruction has completed, so
the controller remembers the address.  It remembers an address and not a breakpoint: one that is
made later at the same address is let pass as well, although it never stopped anything.

What the controller remembers is told by two kinds of marks that a history leaves, stops at
breakpoints and completed instructions, and by the last of them alone (`lastBreak_actAll`).
Nothing else that is asked of a controller comes near it: breakpoints and sessions come and go,
modes change and the hart is reset without leaving a mark.  So a new breakpoint stops the hart at
once unless the last mark before it is a stop at its own address.
-/
import HomeComputer.Proofs.Control.Requests
import HomeComputer.Proofs.Machine.Memory
import HomeComputer.Proofs.Machine.Run

namespace HomeComputer

/-! ### Marks -/

/-- What the controller goes by to let a breakpoint pass. -/
inductive Mark
  /-- A breakpoint stopped the hart at this address. -/
  | stopped (addr : Word)
  /-- An instruction completed. -/
  | retired
  deriving DecidableEq, Repr

/-- The address that a controller remembers after a mark. -/
def Mark.remembered : Mark → Option Word
  | stopped addr => some addr
  | retired => none

namespace Request

/-- The mark that a request leaves, if it leaves one. -/
def mark? (c : Controller) : Request → Option Mark
  | shouldBreak pc => if c.stopsAt pc then some (.stopped pc) else none
  | retired => some .retired
  | _ => none

/-- The request makes a breakpoint at an address where there is none. -/
def Creates (c : Controller) (addr : Word) (r : Request) : Prop :=
  c.breakpoint? addr = none ∧
    ((∃ name origin, r = addBreakpoint addr name origin) ∨ r = debuggerInsert addr)

theorem Creates.mark? {c : Controller} {addr : Word} {r : Request} (h : r.Creates c addr) :
    r.mark? c = none := by
  rcases h.2 with ⟨name, origin, rfl⟩ | rfl
  · rfl
  · rfl

end Request

namespace Controller

theorem lastBreak_halt (c : Controller) (reason : StopReason) (pc : Word) :
    (c.halt reason pc).2.lastBreak = c.lastBreak := by
  unfold halt notify
  cases c.isRunning with
  | false => rfl
  | true => cases c.listener <;> rfl

/-- Only what leaves a mark changes what is remembered. -/
theorem lastBreak_serve (c : Controller) (r : Request) :
    (c.serve r).lastBreak = ((r.mark? c).map Mark.remembered).getD c.lastBreak := by
  cases r with
  | addBreakpoint addr name origin =>
      simp only [serve, addBreakpoint]
      cases c.breakpoint? addr <;> rfl
  | enableBreakpoint addr enabled =>
      simp only [serve, enableBreakpoint]
      cases c.breakpoint? addr <;> rfl
  | removeBreakpoint addr =>
      simp only [serve, removeBreakpoint]
      cases c.breakpoint? addr <;> rfl
  | halt reason pc => exact c.lastBreak_halt reason pc
  | shouldBreak pc =>
      by_cases hstops : c.stopsAt pc = true
      · simp only [serve, Request.mark?, Machine.shouldBreak_of_stopsAt hstops, if_pos hstops]
        rfl
      · simp only [serve, Request.mark?, Machine.shouldBreak_of_not_stopsAt hstops, if_neg hstops]
        rfl
  | debuggerInsert _ | debuggerRemove _ | setBreakpointsEnabled _ | clearBreakpoints _ | go
  | stepInto | retired | listen _ | unlisten | collect _ | resetSession => rfl

end Controller

/-! ### Histories of a computer -/

/-- What happens to a computer: something is asked of its controller, it comes to an instruction
boundary, a debugger makes it run an instruction, or it is reset. -/
inductive Action
  | ask (r : Request)
  | tick
  | stepOnce
  | reset

namespace Machine

variable {δ : Type} [DeviceAccess δ]

def act (m : Machine δ) : Action → Machine δ
  | .ask r => { m with control := m.control.serve r }
  | .tick => m.tick.2
  | .stepOnce => m.stepOnce
  | .reset => m.reset

/-- The computer after a history. -/
def actAll (m : Machine δ) (actions : List Action) : Machine δ := actions.foldl act m

/-- The mark that an action leaves, if it leaves one. -/
def mark? (m : Machine δ) : Action → Option Mark
  | .ask r => r.mark? m.control
  | .tick =>
      match m.tick.1 with
      | .idle => none
      | .retired => some .retired
      | .stopped pc => some (.stopped pc)
  | .stepOnce => some .retired
  | .reset => none

/-- The marks that a history leaves, in its order. -/
def marks (m : Machine δ) : List Action → List Mark
  | [] => []
  | a :: actions => (m.mark? a).toList ++ (m.act a).marks actions

theorem actAll_append (m : Machine δ) (before after : List Action) :
    m.actAll (before ++ after) = (m.actAll before).actAll after :=
  List.foldl_append

theorem lastBreak_tick (m : Machine δ) :
    m.tick.2.control.lastBreak =
      ((m.mark? .tick).map Mark.remembered).getD m.control.lastBreak := by
  unfold mark? tick
  cases hm : m.control.mode with
  | halted => rfl
  | step => rfl
  | running =>
      by_cases hstops : m.control.stopsAt m.pc = true
      · simp only [shouldBreak_of_stopsAt hstops]
        rfl
      · simp only [shouldBreak_of_not_stopsAt hstops]
        rfl

theorem lastBreak_act (m : Machine δ) (a : Action) :
    (m.act a).control.lastBreak =
      ((m.mark? a).map Mark.remembered).getD m.control.lastBreak := by
  cases a with
  | ask r => exact m.control.lastBreak_serve r
  | tick => exact m.lastBreak_tick
  | stepOnce => rfl
  | reset => exact m.control.lastBreak_halt .requested m.resetPc

/-- What the controller remembers after a history is told by the last mark of it. -/
theorem lastBreak_actAll (m : Machine δ) (actions : List Action) :
    (m.actAll actions).control.lastBreak =
      ((m.marks actions).getLast?.map Mark.remembered).getD m.control.lastBreak := by
  induction actions generalizing m with
  | nil => rfl
  | cons a actions ih =>
      show ((m.act a).actAll actions).control.lastBreak = _
      rw [ih, marks, List.getLast?_append, lastBreak_act]
      cases (m.act a).marks actions |>.getLast? with
      | some k => rfl
      | none =>
          cases m.mark? a with
          | some k => rfl
          | none => rfl

/-! ### New breakpoints -/

/-- What is remembered once a breakpoint was made and nothing has left a mark since is what the
last mark before says. -/
theorem lastBreak_of_creation {m : Machine δ} (hm : m.control.lastBreak = none) {addr : Word}
    {before after : List Action} {creation : Request}
    (hcreates : creation.Creates (m.actAll before).control addr)
    (hquiet : ((m.actAll before).act (.ask creation)).marks after = []) :
    (m.actAll (before ++ .ask creation :: after)).control.lastBreak =
      (m.marks before).getLast?.bind Mark.remembered := by
  have hmarks : (m.actAll before).marks (.ask creation :: after) = [] := by
    show (creation.mark? (m.actAll before).control).toList ++ _ = _
    rw [hcreates.mark?, hquiet]
    rfl
  rw [actAll_append, lastBreak_actAll, hmarks, lastBreak_actAll, hm]
  cases (m.marks before).getLast? with
  | none => rfl
  | some k => rfl

/-- **A new breakpoint stops the hart at once, unless the last that happened before it was a stop
at its own address.**  Let a breakpoint be made at an address where there is none, in any history
of requests, instructions and resets, and let no breakpoint stop the hart and no instruction
complete from then on.  Where the hart runs, breakpoints are on and there is an enabled one at
the address, the boundary there stops the hart, whatever breakpoints and sessions there were
before; but it is let pass if the last mark before was a stop at this very address. -/
theorem new_breakpoint_stops {m : Machine δ} (hm : m.control.lastBreak = none) {addr : Word}
    {before after : List Action} {creation : Request}
    (hcreates : creation.Creates (m.actAll before).control addr)
    (hquiet : ((m.actAll before).act (.ask creation)).marks after = []) :
    let c := (m.actAll (before ++ .ask creation :: after)).control
    c.mode = .running → c.breakpointsEnabled = true →
    (∃ b, c.breakpoint? addr = some b ∧ b.enabled = true) →
      ((m.marks before).getLast? ≠ some (.stopped addr) →
        c.shouldBreak addr = (true, { c with
          mode := .halted
          lastBreak := some addr
          notices := c.notices ++ told c addr })) ∧
      ((m.marks before).getLast? = some (.stopped addr) → c.shouldBreak addr = (false, c)) := by
  intro c hrunning hswitch henabled
  have hlast : c.lastBreak = (m.marks before).getLast?.bind Mark.remembered :=
    lastBreak_of_creation hm hcreates hquiet
  have hstops : c.stopsAt addr = true ↔ c.lastBreak ≠ some addr := by
    have hsits : c.breakpoints.stopsAt addr = true := by
      obtain ⟨b, hb, hbenabled⟩ := henabled
      exact (Option.any_eq_true _ _).mpr ⟨b, hb, hbenabled⟩
    unfold Controller.stopsAt Controller.isRunning
    rw [hrunning, hswitch, hsits]
    simp
  refine ⟨?_, ?_⟩
  · intro hother
    refine shouldBreak_of_stopsAt (hstops.mpr ?_)
    rw [hlast]
    cases hmark : (m.marks before).getLast? with
    | none => simp
    | some k =>
        cases k with
        | retired => simp [Mark.remembered]
        | stopped a =>
            rw [hmark] at hother
            simpa [Mark.remembered] using hother
  · intro hsame
    refine shouldBreak_of_not_stopsAt (mt hstops.mp ?_)
    rw [hlast, hsame]
    simp [Mark.remembered]

/-- A session's breakpoint at the reset address stops the standard computer, the session ends and
another one is stopped elsewhere; a breakpoint that the owner now makes at the reset address stops
the computer there although nothing has completed. -/
theorem new_breakpoint_stops_elsewhere :
    let m : Machine Devices := fresh {} {}
    let before : List Action :=
      [.ask (.debuggerInsert 0x0#32), .ask .go, .tick, .ask .resetSession,
       .ask (.debuggerInsert 0x10#32), .ask .go, .ask (.shouldBreak 0x10#32)]
    let creation : Request := .addBreakpoint 0x0#32 none .local
    let c := (m.actAll (before ++ .ask creation :: [.ask .go])).control
    m.marks before = [.stopped 0x0#32, .stopped 0x10#32] ∧ (c.shouldBreak 0x0#32).1 = true := by
  intro m before creation c
  have hmarks : m.marks before = [.stopped 0x0#32, .stopped 0x10#32] := by decide +kernel
  have hcreates : creation.Creates (m.actAll before).control 0x0#32 :=
    ⟨by decide +kernel, Or.inl ⟨none, .local, rfl⟩⟩
  have hquiet : ((m.actAll before).act (.ask creation)).marks [.ask .go] = [] := rfl
  have henabled : ∃ b, c.breakpoint? 0x0#32 = some b ∧ b.enabled = true :=
    ⟨.make 0x0#32 none .local, by decide +kernel, rfl⟩
  have hstops := (new_breakpoint_stops rfl hcreates hquiet rfl (by decide +kernel) henabled).1
    (by rw [hmarks]; decide)
  exact ⟨hmarks, congrArg Prod.fst hstops⟩

/-- A session's breakpoint at the reset address stops the standard computer, and the session ends.
The breakpoint that the owner now makes at this address is enabled and has never stopped anything,
breakpoints are on and the computer runs, and it is let pass. -/
theorem new_breakpoint_let_pass :
    let m : Machine Devices := fresh {} {}
    let before : List Action :=
      [.ask (.debuggerInsert 0x0#32), .ask .go, .tick, .ask .resetSession]
    let creation : Request := .addBreakpoint 0x0#32 none .local
    let c := (m.actAll (before ++ .ask creation :: [.ask .go])).control
    creation.Creates (m.actAll before).control 0x0#32 ∧
    ((m.actAll before).act (.ask creation)).marks [.ask .go] = [] ∧
    c.mode = .running ∧ c.breakpointsEnabled = true ∧
    c.breakpoint? 0x0#32 = some (.make 0x0#32 none .local) ∧ c.shouldBreak 0x0#32 = (false, c) := by
  intro m before creation c
  refine ⟨⟨by decide +kernel, Or.inl ⟨none, .local, rfl⟩⟩, rfl, rfl, by decide +kernel,
    by decide +kernel, ?_⟩
  exact shouldBreak_of_not_stopsAt (by decide +kernel)

end Machine

end HomeComputer
