/-
A run is plain stepping up to the first stop.

`stepOnce` runs an instruction whatever the controller says, so iterating it from a
machine gives the sequence of boundaries that the hart would pass with nobody watching.
`IsStop` says which of these boundaries a running machine stops at, from the controller as
it stands before the run, and `run_eq_stepping` says that a run is the stretch of that
sequence up to the first one, or up to its budget.

Two things carry the proof.  The hart and the address map of a machine after an
instruction depend on nothing but the hart and the address map before it, so the
controller cannot leak into them.  And the controller of a running machine changes only
once: the first instruction clears `lastBreak`, which is why only the very first boundary
can be let pass, and after it every boundary of the rest of the run is judged alike.
-/
import HomeComputer.Machine
import Mathlib.Logic.Function.Iterate

namespace HomeComputer

namespace Machine

variable {δ : Type} [DeviceAccess δ]

/-- Boundary `i` of plain stepping from `m` is one that a run from `m` stops at: the
switch is on, an enabled breakpoint sits exactly there, and it is not the very boundary
that the machine stopped at last and has not left since. -/
def IsStop (m : Machine δ) (i : Nat) : Prop :=
  m.control.breakpointsEnabled = true ∧
    (∃ b, m.control.breakpoint? (stepOnce^[i] m).pc = some b ∧ b.enabled = true) ∧
    ¬(i = 0 ∧ m.control.lastBreak = some m.pc)

/-- What is told of a stop at the breakpoint `p`: one notice, if anybody listens. -/
def told (c : Controller) (p : Word) : List Notice :=
  c.listener.toList.map fun listener => { listener, reason := .breakpoint p, pc := p }

/-- The controller after it stopped the hart at the breakpoint `p`. -/
def stoppedAt (c : Controller) (p : Word) : Controller :=
  { c with mode := .halted, lastBreak := some p, notices := c.notices ++ told c p }

/-- A run from `m` has completed `k` instructions of plain stepping, with hart, memory and
devices as plain stepping has them, and left the controller as given. -/
structure RanTo (m : Machine δ) (k : Nat) (breakpoint : Option Word) (control : Controller)
    (r : RunOutcome × Machine δ) : Prop where
  retired : r.1.retired = k
  breakpoint : r.1.breakpoint = breakpoint
  hart : r.2.hart = (stepOnce^[k] m).hart
  /-- Memory and devices. -/
  map : r.2.map = (stepOnce^[k] m).map
  control : r.2.control = control
  resetPc : r.2.resetPc = m.resetPc

/-! ### What plain stepping does to the controller -/

theorem control_stepOnce {m : Machine δ} (hm : m.control.mode = .running) :
    m.stepOnce.control = { m.control with lastBreak := none } := by
  show m.control.retired = _
  simp [Controller.retired, hm]

theorem iterate_stepOnce_resetPc (m : Machine δ) (i : Nat) :
    (stepOnce^[i] m).resetPc = m.resetPc := by
  induction i generalizing m with
  | zero => rfl
  | succ i ih =>
      rw [Function.iterate_succ_apply, ih]
      rfl

/-- After `i` instructions of a running machine only `lastBreak` may have changed. -/
theorem iterate_stepOnce_control {m : Machine δ} (hm : m.control.mode = .running) (i : Nat) :
    (stepOnce^[i] m).control =
      { m.control with lastBreak := if i = 0 then m.control.lastBreak else none } := by
  induction i generalizing m with
  | zero => rfl
  | succ i ih =>
      have hs := control_stepOnce hm
      rw [Function.iterate_succ_apply, ih (by rw [hs]; exact hm), hs]
      simp

/-- The boundaries after the first instruction are judged as those of a run that starts
there: nothing is let pass any more. -/
theorem isStop_stepOnce {m : Machine δ} (hm : m.control.mode = .running) (i : Nat) :
    m.stepOnce.IsStop i ↔ m.IsStop (i + 1) := by
  unfold IsStop Controller.breakpoint?
  rw [control_stepOnce hm, Function.iterate_succ_apply]
  simp

/-! ### One boundary of a running machine -/

/-- The controller's own question, asked at the boundary where the machine stands. -/
theorem stopsAt_iff {m : Machine δ} (hm : m.control.mode = .running) :
    m.control.stopsAt m.pc = true ↔ m.IsStop 0 := by
  unfold Controller.stopsAt Controller.isRunning Breakpoints.stopsAt IsStop Controller.breakpoint?
  simp [hm, Option.any_eq_true, and_assoc]

theorem shouldBreak_of_stopsAt {c : Controller} {p : Word} (hc : c.stopsAt p = true) :
    c.shouldBreak p = (true, stoppedAt c p) := by
  have hrunning : c.mode = .running := by
    unfold Controller.stopsAt Controller.isRunning at hc
    simp only [Bool.and_eq_true, beq_iff_eq] at hc
    exact hc.1.1.1
  unfold Controller.shouldBreak
  rw [if_pos hc]
  unfold Controller.halt Controller.isRunning Controller.notify stoppedAt told
  cases c.listener with
  | none => simp [hrunning]
  | some listener => simp [hrunning]

theorem shouldBreak_of_not_stopsAt {c : Controller} {p : Word} (hc : ¬c.stopsAt p = true) :
    c.shouldBreak p = (false, c) := by
  unfold Controller.shouldBreak
  rw [if_neg hc]

theorem tick_of_stop {m : Machine δ} (hm : m.control.mode = .running) (hs : m.IsStop 0) :
    m.tick = (.stopped m.pc, { m with control := stoppedAt m.control m.pc }) := by
  unfold tick
  rw [hm]
  simp only [shouldBreak_of_stopsAt ((stopsAt_iff hm).mpr hs)]

theorem tick_of_not_stop {m : Machine δ} (hm : m.control.mode = .running) (hs : ¬m.IsStop 0) :
    m.tick = (.retired, m.stepOnce) := by
  unfold tick
  rw [hm]
  simp only [shouldBreak_of_not_stopsAt (mt (stopsAt_iff hm).mp hs)]

/-- Whatever the mode, a boundary runs an instruction or changes the controller at most. -/
theorem exists_tick_eq (m : Machine δ) : ∃ control,
    (m.tick.1 = .retired ∧ m.tick.2 = { m with control }.stepOnce) ∨
      (m.tick.1 ≠ .retired ∧ m.tick.2 = { m with control }) := by
  unfold tick
  cases m.control.mode with
  | halted => exact ⟨m.control, .inr ⟨Tick.noConfusion, rfl⟩⟩
  | step => exact ⟨m.control, .inl ⟨rfl, rfl⟩⟩
  | running =>
      obtain ⟨stops, control⟩ := m.control.shouldBreak m.pc
      cases stops with
      | true => exact ⟨control, .inr ⟨Tick.noConfusion, rfl⟩⟩
      | false => exact ⟨control, .inl ⟨rfl, rfl⟩⟩

/-! ### A whole run -/

/-- A run with a stop within its budget ends at the first one.  Each instruction before it
shortens the budget and the way to the stop by one. -/
theorem runFrom_of_stop {m : Machine δ} {r n k : Nat} (hm : m.control.mode = .running)
    (hk : k < n) (hstop : m.IsStop k) (hfirst : ∀ i < k, ¬m.IsStop i) :
    m.runFrom r n = ({ retired := r + k, breakpoint := some (stepOnce^[k] m).pc },
      { stepOnce^[k] m with control := stoppedAt m.control (stepOnce^[k] m).pc }) := by
  induction k generalizing m r n with
  | zero =>
      obtain ⟨n, rfl⟩ := Nat.exists_eq_succ_of_ne_zero (Nat.ne_of_gt hk)
      unfold runFrom
      rw [tick_of_stop hm hstop]
      rfl
  | succ k ih =>
      obtain ⟨n, rfl⟩ := Nat.exists_eq_succ_of_ne_zero (Nat.ne_of_gt (Nat.zero_lt_of_lt hk))
      have hs := control_stepOnce hm
      have hnext := ih (m := m.stepOnce) (r := r + 1) (n := n) (by rw [hs]; exact hm) (by omega)
        ((isStop_stepOnce hm k).mpr hstop)
        (fun i hi => mt (isStop_stepOnce hm i).mp (hfirst (i + 1) (by omega)))
      unfold runFrom
      rw [tick_of_not_stop hm (hfirst 0 (by omega))]
      simp only [hnext, Function.iterate_succ_apply, hs]
      rw [show r + 1 + k = r + (k + 1) by omega]
      rfl

/-- A run with no stop within its budget is plain stepping. -/
theorem runFrom_of_no_stop {m : Machine δ} {r n : Nat} (hm : m.control.mode = .running)
    (hnone : ∀ i < n, ¬m.IsStop i) :
    m.runFrom r n = ({ retired := r + n }, stepOnce^[n] m) := by
  induction n generalizing m r with
  | zero => rfl
  | succ n ih =>
      have hs := control_stepOnce hm
      have hnext := ih (m := m.stepOnce) (r := r + 1) (by rw [hs]; exact hm)
        (fun i hi => mt (isStop_stepOnce hm i).mp (hnone (i + 1) (by omega)))
      unfold runFrom
      rw [tick_of_not_stop hm (hnone 0 (by omega))]
      simp only [hnext, Function.iterate_succ_apply]
      rw [show r + 1 + n = r + (n + 1) by omega]

theorem runFrom_of_halted {m : Machine δ} (hm : m.control.mode = .halted) (r n : Nat) :
    m.runFrom r n = ({ retired := r }, m) := by
  cases n with
  | zero => rfl
  | succ n =>
      unfold runFrom tick
      rw [hm]

/-- A single step is over before the next boundary, whatever the budget. -/
theorem run_of_step {m : Machine δ} (hm : m.control.mode = .step) {n : Nat} (hn : 1 ≤ n) :
    m.run n = ({ retired := 1 }, m.stepOnce) := by
  obtain ⟨n, rfl⟩ := Nat.exists_eq_succ_of_ne_zero (Nat.ne_of_gt hn)
  have hhalted : m.stepOnce.control.mode = .halted := by
    show m.control.retired.mode = .halted
    simp [Controller.retired, hm]
  unfold run runFrom tick
  rw [hm]
  exact runFrom_of_halted hhalted 1 n

/-- **A run is plain stepping up to the first stop.**  Running, it ends at the first
boundary within its budget that is a stop, tells the listener of it once and halts there;
without one it goes through its whole budget and runs on.  A single step completes one
instruction whatever the breakpoints, and a halted machine stays as it is. -/
theorem run_eq_stepping (m : Machine δ) (n : Nat) :
    (m.control.mode = .running →
      (∀ k < n, m.IsStop k → (∀ i < k, ¬m.IsStop i) →
        m.RanTo k (some (stepOnce^[k] m).pc) { m.control with
          mode := .halted
          lastBreak := some (stepOnce^[k] m).pc
          notices := m.control.notices ++ told m.control (stepOnce^[k] m).pc } (m.run n)) ∧
      ((∀ i < n, ¬m.IsStop i) →
        m.RanTo n none { m.control with
          mode := .running
          lastBreak := if n = 0 then m.control.lastBreak else none } (m.run n))) ∧
    (m.control.mode = .step → 1 ≤ n →
      m.RanTo 1 none { m.control with mode := .halted, lastBreak := none } (m.run n)) ∧
    (m.control.mode = .halted ∨ n = 0 → m.run n = ({ retired := 0, breakpoint := none }, m)) := by
  refine ⟨fun hm => ⟨fun k hk hstop hfirst => ?_, fun hnone => ?_⟩, fun hm hn => ?_, ?_⟩
  · have hrun : m.run n = _ := runFrom_of_stop (r := 0) hm hk hstop hfirst
    rw [hrun]
    exact ⟨Nat.zero_add k, rfl, rfl, rfl, rfl, iterate_stepOnce_resetPc m k⟩
  · have hrun : m.run n = _ := runFrom_of_no_stop (r := 0) hm hnone
    have hcontrol := iterate_stepOnce_control hm n
    rw [hrun]
    refine ⟨Nat.zero_add n, rfl, rfl, rfl, ?_, iterate_stepOnce_resetPc m n⟩
    rw [hcontrol, ← hm]
  · rw [run_of_step hm hn]
    refine ⟨rfl, rfl, rfl, rfl, ?_, rfl⟩
    show m.control.retired = _
    simp [Controller.retired, hm]
  · rintro (hm | rfl)
    · exact runFrom_of_halted hm 0 n
    · rfl

/-- A machine that stands at the breakpoint it stopped at last, with another one on the
handler that its first instruction traps to: the run passes the first and stops at the
second. -/
theorem run_eq_stepping_handler :
    let m : Machine Devices := {
      hart := { pc := 0x100#32, csr := { mtvec := 0x200#32 } }
      map := { devices := {} }
      control := {
        mode := .running
        breakpoints := (({} : Breakpoints).claimAt 0x100#32).claimAt 0x200#32
        lastBreak := some 0x100#32
        listener := some .host }
      resetPc := 0#32 }
    m.IsStop 1 ∧ (m.run 5).1 = { retired := 1, breakpoint := some 0x200#32 } ∧
      (m.run 5).2.control.notices =
        [{ listener := .host, reason := .breakpoint 0x200#32, pc := 0x200#32 }] := by
  intro m
  have hpc : (stepOnce^[1] m).pc = 0x200#32 := by decide +kernel
  have hstop : m.IsStop 1 := by
    refine ⟨rfl, ⟨Breakpoint.make 0x200#32 none .debugger, ?_, rfl⟩, by simp⟩
    rw [hpc]
    decide +kernel
  have hfirst : ∀ i < 1, ¬m.IsStop i := by
    intro i hi hs
    obtain rfl : i = 0 := by omega
    exact hs.2.2 ⟨rfl, rfl⟩
  have hran := ((run_eq_stepping m 5).1 rfl).1 1 (by decide) hstop hfirst
  rw [hpc] at hran
  refine ⟨hstop, ?_, ?_⟩
  · rw [show (m.run 5).1 = ⟨(m.run 5).1.retired, (m.run 5).1.breakpoint⟩ from rfl, hran.retired,
      hran.breakpoint]
  · rw [hran.control]
    rfl

end Machine

end HomeComputer
