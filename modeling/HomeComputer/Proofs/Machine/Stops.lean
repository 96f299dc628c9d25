/-
Who listens is told of every stop of a running hart, once.

A stop is a change of the mode from running to halted.  Three things bring one about: a call of
`halt`, a reset, which makes such a call, and an instruction boundary at which `shouldBreak` finds
a breakpoint.  `stop?` reads reason and address off their answers, and off nothing else, and
`isSome_stop?_move` says that these are all the changes there are.

As long as one listener stays installed and nobody collects, each of them adds one notice at the
end of what waits and nothing else adds any (`Tells`).  Sequences of steps add what their steps
add, in the same order.
-/
import HomeComputer.Proofs.Machine.NewBreakpoints

namespace HomeComputer

/-- A stop of a running hart. -/
structure Stop where
  reason : StopReason
  pc : Word
  deriving DecidableEq, Repr

/-- What a listener is told of a stop. -/
def Stop.notice (l : Listener) (s : Stop) : Notice :=
  { listener := l, reason := s.reason, pc := s.pc }

/-! ### Requests -/

namespace Request

/-- The request changes nothing about who listens and collects nothing. -/
def steady : Request → Bool
  | listen _ | unlisten | collect _ | resetSession => false
  | _ => true

/-- The stop that a request brings about, as its answer tells. -/
def stop? (c : Controller) : Request → Option Stop
  | halt reason pc => if (c.halt reason pc).1 then some { reason, pc } else none
  | shouldBreak pc =>
      if (c.shouldBreak pc).1 then some { reason := .breakpoint pc, pc } else none
  | _ => none

end Request

namespace Controller

/-- From one controller to another the listener stays, and is told of these stops and no
others. -/
structure Tells (l : Listener) (c c' : Controller) (stops : List Stop) : Prop where
  listener : c'.listener = some l
  notices : c'.notices = c.notices ++ stops.map (Stop.notice l)

namespace Tells

variable {l : Listener} {c c' c'' : Controller} {stops more : List Stop}

theorem of_same (hc : c.listener = some l) (hlistener : c'.listener = c.listener)
    (hnotices : c'.notices = c.notices) : Tells l c c' [] :=
  ⟨hlistener.trans hc, hnotices.trans (List.append_nil _).symm⟩

theorem trans (h : Tells l c c' stops) (h' : Tells l c' c'' more) :
    Tells l c c'' (stops ++ more) := by
  refine ⟨h'.listener, ?_⟩
  rw [h'.notices, h.notices, List.map_append, List.append_assoc]

end Tells

theorem isRunning_iff {c : Controller} : c.isRunning = true ↔ c.mode = .running := by
  unfold isRunning
  rw [beq_iff_eq]

theorem stop?_halt (c : Controller) (reason : StopReason) (pc : Word) :
    (Request.halt reason pc).stop? c = if c.isRunning then some { reason, pc } else none := by
  show (if (c.halt reason pc).1 then _ else _) = _
  unfold halt
  cases c.isRunning with
  | false => rfl
  | true => rfl

theorem stop?_shouldBreak (c : Controller) (pc : Word) :
    (Request.shouldBreak pc).stop? c =
      if c.stopsAt pc then some { reason := .breakpoint pc, pc } else none := by
  show (if (c.shouldBreak pc).1 then _ else _) = _
  unfold shouldBreak
  cases c.stopsAt pc with
  | false => rfl
  | true => rfl

theorem mode_of_stopsAt {c : Controller} {pc : Word} (hstops : c.stopsAt pc = true) :
    c.mode = .running := by
  unfold stopsAt at hstops
  simp only [Bool.and_eq_true] at hstops
  exact isRunning_iff.mp hstops.1.1.1

theorem mode_halt (c : Controller) (reason : StopReason) (pc : Word) :
    (c.halt reason pc).2.mode = .halted := by
  unfold halt
  split
  · rfl
  · rfl

theorem listener_notify (c : Controller) (reason : StopReason) (pc : Word) :
    (c.notify reason pc).listener = c.listener := by
  unfold notify
  cases hc : c.listener with
  | none => exact hc
  | some l => rfl

theorem notices_notify {c : Controller} {l : Listener} (hc : c.listener = some l)
    (reason : StopReason) (pc : Word) :
    (c.notify reason pc).notices = c.notices ++ [Stop.notice l { reason, pc }] := by
  unfold notify
  rw [hc]
  rfl

theorem tells_halt {c : Controller} {l : Listener} (hc : c.listener = some l)
    (reason : StopReason) (pc : Word) :
    Tells l c (c.halt reason pc).2 ((Request.halt reason pc).stop? c).toList := by
  rw [stop?_halt]
  unfold halt
  by_cases hrunning : c.isRunning = true
  · rw [if_pos hrunning, if_pos hrunning]
    exact ⟨(c.listener_notify reason pc).trans hc, notices_notify hc reason pc⟩
  · rw [if_neg hrunning, if_neg hrunning]
    exact Tells.of_same hc rfl rfl

theorem tells_shouldBreak {c : Controller} {l : Listener} (hc : c.listener = some l) (pc : Word) :
    Tells l c (c.shouldBreak pc).2 ((Request.shouldBreak pc).stop? c).toList := by
  rw [stop?_shouldBreak]
  by_cases hstops : c.stopsAt pc = true
  · rw [if_pos hstops, Machine.shouldBreak_of_stopsAt hstops]
    refine ⟨hc, ?_⟩
    show c.notices ++ Machine.told c pc = _
    unfold Machine.told
    rw [hc]
    rfl
  · rw [if_neg hstops, Machine.shouldBreak_of_not_stopsAt hstops]
    exact Tells.of_same hc rfl rfl

/-- A request tells the listener of the stop it brings about. -/
theorem tells_serve {c : Controller} {l : Listener} (hc : c.listener = some l) {r : Request}
    (hr : r.steady = true) : Tells l c (c.serve r) (r.stop? c).toList := by
  cases r with
  | halt reason pc => exact tells_halt hc reason pc
  | shouldBreak pc => exact tells_shouldBreak hc pc
  | addBreakpoint addr name origin =>
      simp only [serve, addBreakpoint]
      cases c.breakpoint? addr <;> exact Tells.of_same hc rfl rfl
  | enableBreakpoint addr enabled =>
      simp only [serve, enableBreakpoint]
      cases c.breakpoint? addr <;> exact Tells.of_same hc rfl rfl
  | removeBreakpoint addr =>
      simp only [serve, removeBreakpoint]
      cases c.breakpoint? addr <;> exact Tells.of_same hc rfl rfl
  | debuggerInsert _ | debuggerRemove _ | setBreakpointsEnabled _ | clearBreakpoints _ | go
  | stepInto | retired => exact Tells.of_same hc rfl rfl
  | listen _ | unlisten | collect _ | resetSession => cases hr

/-- A request brings about a stop exactly where the mode goes from running to halted. -/
theorem isSome_stop?_serve (c : Controller) {r : Request} (hr : r.steady = true) :
    (r.stop? c).isSome = true ↔ c.mode = .running ∧ (c.serve r).mode = .halted := by
  have hstays (h : (c.serve r).mode = c.mode) :
      (none : Option Stop).isSome = true ↔ c.mode = .running ∧ (c.serve r).mode = .halted := by
    rw [h]
    cases c.mode <;> simp
  cases r with
  | halt reason pc =>
      rw [stop?_halt, ← isRunning_iff]
      have hhalted : (c.serve (.halt reason pc)).mode = .halted := c.mode_halt reason pc
      cases c.isRunning <;> simp [hhalted]
  | shouldBreak pc =>
      rw [stop?_shouldBreak]
      by_cases hstops : c.stopsAt pc = true
      · have hhalted : (c.serve (.shouldBreak pc)).mode = .halted := by
          show (c.shouldBreak pc).2.mode = .halted
          rw [Machine.shouldBreak_of_stopsAt hstops]
          rfl
        simp [hstops, hhalted, mode_of_stopsAt hstops]
      · rw [if_neg hstops]
        refine hstays ?_
        show (c.shouldBreak pc).2.mode = c.mode
        rw [Machine.shouldBreak_of_not_stopsAt hstops]
  | addBreakpoint addr name origin =>
      refine hstays ?_
      simp only [serve, addBreakpoint]
      cases c.breakpoint? addr <;> rfl
  | enableBreakpoint addr enabled =>
      refine hstays ?_
      simp only [serve, enableBreakpoint]
      cases c.breakpoint? addr <;> rfl
  | removeBreakpoint addr =>
      refine hstays ?_
      simp only [serve, removeBreakpoint]
      cases c.breakpoint? addr <;> rfl
  | debuggerInsert _ | debuggerRemove _ | setBreakpointsEnabled _ | clearBreakpoints _ =>
      exact hstays rfl
  | go | stepInto => simp [Request.stop?, serve, go, stepInto]
  | retired => cases hmode : c.mode <;> simp [Request.stop?, serve, retired, hmode]
  | listen _ | unlisten | collect _ | resetSession => cases hr

end Controller

/-! ### A computer and its host -/

/-- What happens to a computer between two looks at who was told of what: an action, or a change
of the hart or of memory and devices that leaves the controller alone. -/
inductive Move (δ : Type)
  | act (a : Action)
  | edit (hart : Hart) (map : AddressMap δ)

def Action.steady : Action → Bool
  | ask r => r.steady
  | _ => true

def Move.steady {δ : Type} : Move δ → Bool
  | act a => a.steady
  | edit _ _ => true

namespace Machine

variable {δ : Type} [DeviceAccess δ]

def move (m : Machine δ) : Move δ → Machine δ
  | .act a => m.act a
  | .edit hart map => { m with hart, map }

def moveAll (m : Machine δ) (moves : List (Move δ)) : Machine δ := moves.foldl move m

/-- The stop that a move brings about, as its answer tells. -/
def stop? (m : Machine δ) : Move δ → Option Stop
  | .act (.ask r) => r.stop? m.control
  | .act .tick =>
      match m.tick.1 with
      | .stopped pc => some { reason := .breakpoint pc, pc }
      | .idle | .retired => none
  | .act .reset => (Request.halt .requested m.resetPc).stop? m.control
  | .act .stepOnce | .edit _ _ => none

/-- The stops in a history, in its order. -/
def stops (m : Machine δ) : List (Move δ) → List Stop
  | [] => []
  | v :: moves => (m.stop? v).toList ++ (m.move v).stops moves

/-- What an instruction boundary asks of the controller, and what that comes to. -/
theorem tick_cases (m : Machine δ) :
    (m.tick.2.control = m.control ∧ m.stop? (.act .tick) = none) ∨
    (m.tick.2.control = m.control.serve .retired ∧ m.stop? (.act .tick) = none) ∨
    (m.tick.2.control = m.control.serve (.shouldBreak m.pc) ∧
      m.stop? (.act .tick) = (Request.shouldBreak m.pc).stop? m.control) := by
  unfold stop? tick
  cases m.control.mode with
  | halted => exact .inl ⟨rfl, rfl⟩
  | step => exact .inr (.inl ⟨rfl, rfl⟩)
  | running =>
      rw [Controller.stop?_shouldBreak]
      by_cases hstops : m.control.stopsAt m.pc = true
      · refine .inr (.inr ?_)
        rw [if_pos hstops]
        simp only [Controller.serve, shouldBreak_of_stopsAt hstops, and_self]
      · refine .inr (.inl ?_)
        simp only [shouldBreak_of_not_stopsAt hstops, and_true]
        rfl

/-- A move tells the listener of the stop it brings about. -/
theorem tells_move {m : Machine δ} {l : Listener} (hm : m.control.listener = some l)
    {v : Move δ} (hv : v.steady = true) :
    Controller.Tells l m.control (m.move v).control (m.stop? v).toList := by
  cases v with
  | edit hart map => exact Controller.Tells.of_same hm rfl rfl
  | act a =>
      cases a with
      | ask r => exact Controller.tells_serve hm hv
      | stepOnce => exact Controller.tells_serve (r := .retired) hm rfl
      | reset => exact Controller.tells_halt hm .requested m.resetPc
      | tick =>
          show Controller.Tells l m.control m.tick.2.control _
          rcases m.tick_cases with ⟨hcontrol, hstop⟩ | ⟨hcontrol, hstop⟩ | ⟨hcontrol, hstop⟩
          · rw [hcontrol, hstop]
            exact Controller.Tells.of_same hm rfl rfl
          · rw [hcontrol, hstop]
            exact Controller.tells_serve (r := .retired) hm rfl
          · rw [hcontrol, hstop]
            exact Controller.tells_shouldBreak hm m.pc

/-- A move brings about a stop exactly where the mode goes from running to halted. -/
theorem isSome_stop?_move (m : Machine δ) {v : Move δ} (hv : v.steady = true) :
    (m.stop? v).isSome = true ↔
      m.control.mode = .running ∧ (m.move v).control.mode = .halted := by
  have hserve {r : Request} (hr : r.steady = true) := m.control.isSome_stop?_serve hr
  have hstays : (none : Option Stop).isSome = true ↔
      m.control.mode = .running ∧ m.control.mode = .halted := by
    cases m.control.mode <;> simp
  cases v with
  | edit hart map => exact hstays
  | act a =>
      cases a with
      | ask r => exact hserve hv
      | stepOnce => exact hserve (r := .retired) rfl
      | reset => exact hserve (r := .halt .requested m.resetPc) rfl
      | tick =>
          show _ ↔ _ ∧ m.tick.2.control.mode = .halted
          rcases m.tick_cases with ⟨hcontrol, hstop⟩ | ⟨hcontrol, hstop⟩ | ⟨hcontrol, hstop⟩
          · rw [hcontrol, hstop]
            exact hstays
          · rw [hcontrol, hstop]
            exact hserve (r := .retired) rfl
          · rw [hcontrol, hstop]
            exact hserve (r := .shouldBreak m.pc) rfl

/-- A history of moves tells the listener of its stops, in their order. -/
theorem tells_moveAll {m : Machine δ} {l : Listener} (hm : m.control.listener = some l)
    {moves : List (Move δ)} (hmoves : ∀ v ∈ moves, v.steady = true) :
    Controller.Tells l m.control (m.moveAll moves).control (m.stops moves) := by
  induction moves generalizing m with
  | nil => exact Controller.Tells.of_same hm rfl rfl
  | cons v moves ih =>
      obtain ⟨hv, hmoves⟩ := List.forall_mem_cons.mp hmoves
      have hfirst := tells_move hm hv
      exact hfirst.trans (ih hfirst.listener hmoves)

end Machine

end HomeComputer
