/-
Turns leave no trace.

A session runs its program in turns, takes what was sent after each, and ends in one of three
places: between turns when the limit is reached, within a turn at a breakpoint, or at the very
beginning of a turn at a breakpoint that the turn before came up to.  None of this shows in what it
leaves behind.  It ends after the number of plain steps that the limit and the first boundary at a
breakpoint allow, whatever the size of a turn, and where both allow the same it is the limit that
ends it.

Two facts carry the proof.  A run is plain stepping up to its first stop, and the computer whose
output was taken runs the same program (`Machine.SameProgram`).  So a session stands where plain
stepping from the loaded computer stands, with everything written out that was sent on the way
(`Session.Standing`).  The induction is on the turns: each that does not end the session completes
an instruction, so there are enough of them.
-/
import HomeComputer.Console.Session
import HomeComputer.Proofs.Image.Loading
import HomeComputer.Proofs.Machine.Draining
import HomeComputer.Proofs.Machine.Keyboard
import HomeComputer.Proofs.Text.Numerals
import Mathlib.Data.ENat.Lattice

namespace HomeComputer

/-! ### A computer ready to start -/

/-- A running hart that is to stop at these addresses and has not stopped yet. -/
structure Controller.Watches (c : Controller) (addrs : List Word) : Prop where
  running : c.mode = .running
  enabled : c.breakpointsEnabled = true
  notStopped : c.lastBreak = none
  armed : ∀ addr, (∃ b, c.breakpoint? addr = some b ∧ b.enabled = true) ↔ addr ∈ addrs

namespace Machine

variable {δ : Type} [DeviceAccess δ] {m : Machine δ} {addrs : List Word}

/-- A run from here stops where plain stepping comes to one of the addresses. -/
theorem isStop_iff_of_watches (hc : m.control.Watches addrs) (i : Nat) :
    m.IsStop i ↔ (stepOnce^[i] m).pc ∈ addrs := by
  unfold IsStop
  rw [hc.enabled, hc.armed, hc.notStopped]
  simp

theorem watches_iterate_stepOnce (hc : m.control.Watches addrs) (n : Nat) :
    (stepOnce^[n] m).control.Watches addrs := by
  rw [iterate_stepOnce_control hc.running, hc.notStopped, ite_self]
  exact ⟨hc.running, hc.enabled, rfl, hc.armed⟩

end Machine

namespace Console

open Machine (SameProgram)

namespace RunOptions

/-- Different addresses all become breakpoints, and no other breakpoint is touched. -/
theorem exists_withBreakpoints {m : Machine Devices} {addrs : List Word} (hnodup : addrs.Nodup)
    (hfree : ∀ addr ∈ addrs, m.control.breakpoint? addr = none) :
    ∃ breakpoints, withBreakpoints m addrs =
        .ok { m with control := { m.control with breakpoints } } ∧
      ∀ addr, (∃ b, breakpoints[addr]? = some b ∧ b.enabled = true) ↔
        addr ∈ addrs ∨ ∃ b, m.control.breakpoint? addr = some b ∧ b.enabled = true := by
  induction addrs generalizing m with
  | nil => exact ⟨m.control.breakpoints, rfl, fun addr => by simp [Controller.breakpoint?]⟩
  | cons a addrs ih =>
      obtain ⟨hfirst, hrest⟩ := List.nodup_cons.mp hnodup
      let made := Breakpoint.make a (some (breakpointName a)) .local
      let next := { m with control := { m.control with
        breakpoints := m.control.breakpoints.insert a made } }
      have hadded : m.control.addBreakpoint a (some (breakpointName a)) .local =
          .ok next.control := by
        unfold Controller.addBreakpoint
        rw [hfree a List.mem_cons_self]
      have hadd : withBreakpoints m (a :: addrs) = withBreakpoints next addrs := by
        rw [withBreakpoints, hadded]
      have hlook (addr : Word) : next.control.breakpoint? addr =
          if a = addr then some made else m.control.breakpoint? addr :=
        m.control.breakpoint?_insert a made addr
      have hfree' : ∀ addr ∈ addrs, next.control.breakpoint? addr = none := by
        intro addr haddr
        rw [hlook, if_neg fun h : a = addr => hfirst (h ▸ haddr)]
        exact hfree addr (List.mem_cons_of_mem a haddr)
      obtain ⟨breakpoints, hok, harmed⟩ := ih hrest hfree'
      refine ⟨breakpoints, hadd.trans hok, fun addr => ?_⟩
      rw [harmed addr, hlook, List.mem_cons]
      by_cases ha : a = addr
      · rw [if_pos ha]
        exact ⟨fun _ => .inl (.inl ha.symm), fun _ => .inr ⟨made, rfl, rfl⟩⟩
      · rw [if_neg ha]
        have hne : addr ≠ a := fun h => ha h.symm
        simp [hne]

/-- The most instructions that a session may complete. -/
def limit (o : RunOptions) : ENat := o.maxInstructions.elim ⊤ (↑)

/-- The number of plain steps to the first boundary at a breakpoint. -/
noncomputable def firstMet (o : RunOptions) (m : Machine Devices) : ENat :=
  ⨅ (i : Nat) (_ : (Machine.stepOnce^[i] m).pc ∈ o.breakpoints), (i : ENat)

variable {o : RunOptions} {m : Machine Devices}

theorem firstMet_le {i : Nat} (hi : (Machine.stepOnce^[i] m).pc ∈ o.breakpoints) :
    o.firstMet m ≤ i := iInf₂_le i hi

theorem le_firstMet {k : ENat}
    (hbefore : ∀ i : Nat, (Machine.stepOnce^[i] m).pc ∈ o.breakpoints → k ≤ i) :
    k ≤ o.firstMet m := le_iInf₂ hbefore

/-- The first boundary at a breakpoint is at a breakpoint. -/
theorem mem_of_firstMet {k : Nat} (hk : o.firstMet m = k) :
    (Machine.stepOnce^[k] m).pc ∈ o.breakpoints := by
  by_contra hnot
  have hnext : ((k + 1 : Nat) : ENat) ≤ o.firstMet m := by
    refine le_firstMet fun i hi => ?_
    have hle : k ≤ i := by
      have h := firstMet_le hi
      rw [hk] at h
      exact_mod_cast h
    have hne : i ≠ k := fun h => hnot (h ▸ hi)
    exact_mod_cast (by omega : k + 1 ≤ i)
  rw [hk] at hnext
  have hlt : k + 1 ≤ k := by exact_mod_cast hnext
  omega

/-- A session ends after `total` instructions: at a breakpoint, or else at the limit. -/
structure Ends (o : RunOptions) (m : Machine Devices) (total : Nat) (met : Prop) : Prop where
  before : ∀ i < total, (Machine.stepOnce^[i] m).pc ∉ o.breakpoints
  stopped : met → (Machine.stepOnce^[total] m).pc ∈ o.breakpoints ∧
    ∀ limit, o.maxInstructions = some limit → total < limit
  reached : ¬met → o.maxInstructions = some total

theorem ends_of_min_eq {total : Nat} (htotal : min o.limit (o.firstMet m) = total) :
    o.Ends m total (o.firstMet m < o.limit) where
  before i hi hmet := by
    have hle : (total : ENat) ≤ i := htotal ▸ (min_le_right _ _).trans (firstMet_le hmet)
    have hle : total ≤ i := by exact_mod_cast hle
    omega
  stopped hmet := by
    rw [min_eq_right hmet.le] at htotal
    refine ⟨mem_of_firstMet htotal, fun limit hlimit => ?_⟩
    rw [htotal, RunOptions.limit, hlimit, Option.elim_some] at hmet
    exact_mod_cast hmet
  reached hnot := by
    rw [min_eq_left (not_lt.mp hnot), RunOptions.limit] at htotal
    cases hlimit : o.maxInstructions with
    | none =>
        rw [hlimit] at htotal
        exact absurd htotal (ENat.top_ne_natCast total)
    | some limit =>
        rw [hlimit, Option.elim_some] at htotal
        exact congrArg some (by exact_mod_cast htotal)

end RunOptions

namespace Session

/-! ### One turn -/

/-- The bytes that the plain steps from the one with index `n` on send, `count` of them. -/
def sentFrom (m : Machine Devices) (n count : Nat) : List Byte :=
  (List.range' n count).flatMap fun i => (Machine.stepOnce^[i] m).sends

theorem sentFrom_add (m : Machine Devices) (n a b : Nat) :
    sentFrom m n (a + b) = sentFrom m n a ++ sentFrom m (n + a) b := by
  unfold sentFrom
  rw [← List.flatMap_append, List.range'_append_1]

/-- A session of the program `m` that has completed `n` instructions stands where plain stepping
stands after as many, and everything sent was written. -/
structure Standing (o : RunOptions) (m : Machine Devices) (n : Nat) (s : Session) : Prop where
  total : s.total = n
  same : SameProgram s.machine (Machine.stepOnce^[n] m)
  watches : s.machine.control.Watches o.breakpoints
  written : Channel.toHost.waiting s.machine.map = []

variable {o : RunOptions} {m : Machine Devices} {n size : Nat} {s : Session}

namespace Standing

theorem iterate (hs : Standing o m n s) (i : Nat) :
    SameProgram (Machine.stepOnce^[i] s.machine) (Machine.stepOnce^[n + i] m) := by
  rw [Nat.add_comm, Function.iterate_add_apply]
  exact hs.same.iterate i

theorem isStop_iff (hs : Standing o m n s) (i : Nat) :
    s.machine.IsStop i ↔ (Machine.stepOnce^[n + i] m).pc ∈ o.breakpoints := by
  rw [Machine.isStop_iff_of_watches hs.watches]
  unfold Machine.pc
  rw [(hs.iterate i).hart]

/-- What waits after some instructions is what they sent. -/
theorem waiting_eq (hs : Standing o m n s) {count : Nat}
    (hkept : ∀ i < n + count, ¬(Machine.stepOnce^[i] m).ResetsLink) :
    Channel.toHost.waiting (Machine.stepOnce^[count] s.machine).map = sentFrom m n count := by
  have hkept' : ∀ i < count, ¬(Machine.stepOnce^[i] s.machine).ResetsLink := by
    intro i hi
    rw [(hs.iterate i).resetsLink_iff]
    exact hkept (n + i) (by omega)
  rw [Machine.waiting_iterate_stepOnce hkept', hs.written, List.nil_append, sentFrom,
    List.range'_eq_map_range, List.flatMap_map]
  exact List.flatMap_congr fun i _ => (hs.iterate i).sends

end Standing

theorem turn_of_budget_zero (hbudget : s.budget o size = 0) : s.turn o size = .done [] "" s := by
  unfold turn
  exact if_pos hbudget

/-- The session after a run, with everything written out. -/
def after (s : Session) (outcome : RunOutcome) (m : Machine Devices) : Session where
  machine := { m with map := m.map.drained }
  total := s.total + outcome.retired

theorem breakpointNote_of_same {m m' : Machine Devices} (h : SameProgram m m') (pc : Word) :
    breakpointNote m pc = breakpointNote m' pc := by
  unfold breakpointNote
  rw [h.disassembleAt]

/-- A turn with something to do is a run, and what was sent by then. -/
theorem turn_of_run (hdebug : o.debug = none) {b : Nat} (hbudget : s.budget o size = b)
    (hpos : 0 < b) {outcome : RunOutcome} {m : Machine Devices}
    (hrun : s.machine.run b = (outcome, m)) :
    s.turn o size = match outcome.breakpoint with
      | some pc => .done (Channel.toHost.waiting m.map)
          (breakpointNote (s.after outcome m).machine pc) (s.after outcome m)
      | none =>
          if !m.control.isRunning && outcome.retired == 0 then
            .done (Channel.toHost.waiting m.map) "" (s.after outcome m)
          else .more (Channel.toHost.waiting m.map) (s.after outcome m) := by
  have hquiet : ¬o.isDebugging = true := by
    unfold RunOptions.isDebugging
    rw [hdebug]
    exact Bool.false_ne_true
  unfold turn
  simp only [hbudget, if_neg (Nat.ne_of_gt hpos), hrun, if_neg hquiet]
  rfl

/-- A turn that comes to no breakpoint completes its budget, and the session goes on. -/
theorem turn_of_no_stop (hs : Standing o m n s) (hdebug : o.debug = none) {b : Nat}
    (hbudget : s.budget o size = b) (hpos : 0 < b)
    (hclear : ∀ i < n + b, (Machine.stepOnce^[i] m).pc ∉ o.breakpoints) :
    ∃ s', s.turn o size =
        .more (Channel.toHost.waiting (Machine.stepOnce^[b] s.machine).map) s' ∧
      Standing o m (n + b) s' := by
  have hrun : s.machine.run b = ({ retired := 0 + b }, Machine.stepOnce^[b] s.machine) :=
    Machine.runFrom_of_no_stop hs.watches.running fun i hi hstop =>
      hclear (n + i) (by omega) ((hs.isStop_iff i).mp hstop)
  have hwatches := Machine.watches_iterate_stepOnce hs.watches b
  have hrunning : (Machine.stepOnce^[b] s.machine).control.isRunning = true :=
    beq_iff_eq.mpr hwatches.running
  refine ⟨_, (turn_of_run hdebug hbudget hpos hrun).trans (if_neg ?_), ?_⟩
  · rw [hrunning]
    exact Bool.false_ne_true
  · refine ⟨?_, ⟨(hs.iterate b).hart, (hs.iterate b).map⟩, hwatches, rfl⟩
    show s.total + (0 + b) = n + b
    rw [hs.total, Nat.zero_add]

/-- A turn that comes to a breakpoint ends the session there. -/
theorem turn_of_stop (hs : Standing o m n s) (hdebug : o.debug = none) {b k : Nat}
    (hbudget : s.budget o size = b) (hk : k < b)
    (hstop : (Machine.stepOnce^[n + k] m).pc ∈ o.breakpoints)
    (hclear : ∀ i < n + k, (Machine.stepOnce^[i] m).pc ∉ o.breakpoints) :
    ∃ s', s.turn o size =
        .done (Channel.toHost.waiting (Machine.stepOnce^[k] s.machine).map)
          (breakpointNote (Machine.stepOnce^[n + k] m) (Machine.stepOnce^[n + k] m).pc) s' ∧
      s'.total = n + k ∧ SameProgram s'.machine (Machine.stepOnce^[n + k] m) := by
  have hrun := Machine.runFrom_of_stop (r := 0) hs.watches.running hk ((hs.isStop_iff k).mpr hstop)
    fun i hi hearlier => hclear (n + i) (by omega) ((hs.isStop_iff i).mp hearlier)
  have hturn := turn_of_run hdebug hbudget (Nat.zero_lt_of_lt hk) hrun
  have hsame := hs.iterate k
  let pc := (Machine.stepOnce^[k] s.machine).pc
  let outcome : RunOutcome := { retired := 0 + k, breakpoint := some pc }
  let stopped : Machine Devices := { Machine.stepOnce^[k] s.machine with
    control := Machine.stoppedAt s.machine.control pc }
  have hafter : SameProgram (s.after outcome stopped).machine (Machine.stepOnce^[n + k] m) :=
    ⟨hsame.hart, hsame.map⟩
  have hpc : pc = (Machine.stepOnce^[n + k] m).pc := congrArg Hart.pc hsame.hart
  refine ⟨s.after outcome stopped, hturn.trans ?_, ?_, hafter⟩
  · rw [← breakpointNote_of_same hafter, ← hpc]
  · show s.total + (0 + k) = n + k
    rw [hs.total, Nat.zero_add]

/-! ### All turns -/

/-- A turn ends the session at the limit, goes on, or comes to the breakpoint that ends it. -/
theorem budget_cases {total : Nat} {met : Prop} (hends : o.Ends m total met) (hsize : 0 < size)
    (hn : s.total ≤ total) :
    (s.budget o size = 0 ∧ ¬met ∧ s.total = total) ∨
      (0 < s.budget o size ∧ s.total + s.budget o size ≤ total) ∨
      (met ∧ total < s.total + s.budget o size) := by
  by_cases hmet : met
  · obtain ⟨-, hlimit⟩ := hends.stopped hmet
    have hpos : 0 < s.budget o size := by
      unfold budget
      cases hmax : o.maxInstructions with
      | none => exact hsize
      | some limit => exact Nat.lt_min.mpr ⟨by have := hlimit limit hmax; omega, hsize⟩
    rcases Nat.lt_or_ge total (s.total + s.budget o size) with hlt | hle
    · exact .inr (.inr ⟨hmet, hlt⟩)
    · exact .inr (.inl ⟨hpos, hle⟩)
  · have hbudget : s.budget o size = min (total - s.total) size := by
      unfold budget
      rw [hends.reached hmet]
    rw [hbudget]
    rcases Nat.eq_or_lt_of_le hn with heq | hlt
    · exact .inl ⟨by omega, hmet, heq⟩
    · exact .inr (.inl ⟨by omega, by omega⟩)

/-- However long the turns are, a session that stands on the way to its end comes to it. -/
theorem turnsFrom_eq {total : Nat} {met : Prop} [Decidable met] (hends : o.Ends m total met)
    (hdebug : o.debug = none) (hsize : 0 < size) {turns : Nat} (hs : Standing o m n s)
    (hn : n ≤ total) (hturns : total - n < turns) :
    ∃ output s', turnsFrom o size s turns = (output, some (if met then
        breakpointNote (Machine.stepOnce^[total] m) (Machine.stepOnce^[total] m).pc else "", s')) ∧
      s'.total = total ∧ SameProgram s'.machine (Machine.stepOnce^[total] m) ∧
      ((∀ i < total, ¬(Machine.stepOnce^[i] m).ResetsLink) →
        output = sentFrom m n (total - n)) := by
  induction turns generalizing n s with
  | zero => omega
  | succ turns ih =>
      have hnow := hs.total
      rcases budget_cases hends hsize (hs.total.le.trans hn) with ⟨hbudget, hmet, hall⟩ |
        ⟨hpos, hle⟩ | ⟨hmet, hlt⟩
      · -- Between turns, at the limit.
        obtain rfl : n = total := hs.total.symm.trans hall
        refine ⟨[], s, ?_, hall, hs.same, fun _ => ?_⟩
        · rw [turnsFrom, turn_of_budget_zero hbudget, if_neg hmet]
        · rw [Nat.sub_self]
          rfl
      · -- Further on.
        obtain ⟨s₁, hturn, hs₁⟩ := turn_of_no_stop hs hdebug rfl hpos fun i hi =>
          hends.before i (by omega)
        obtain ⟨rest, s', hrest, htotal, hsame, hsent⟩ := ih hs₁ (by omega) (by omega)
        let first := Channel.toHost.waiting (Machine.stepOnce^[s.budget o size] s.machine).map
        refine ⟨first ++ rest, s', ?_, htotal, hsame, fun hkept => ?_⟩
        · rw [turnsFrom, hturn]
          simp only [hrest]
          rfl
        · have hfirst : first = sentFrom m n (s.budget o size) :=
            hs.waiting_eq fun i hi => hkept i (by omega)
          have hall : total - n = s.budget o size + (total - (n + s.budget o size)) := by omega
          rw [hfirst, hsent hkept, hall, sentFrom_add]
      · -- Within a turn, at a breakpoint.
        have hk : n + (total - n) = total := by omega
        have hk' : total - n < s.budget o size := by omega
        have hstop : (Machine.stepOnce^[n + (total - n)] m).pc ∈ o.breakpoints := by
          rw [hk]
          exact (hends.stopped hmet).1
        obtain ⟨s', hturn, htotal, hsame⟩ := turn_of_stop hs hdebug rfl hk' hstop fun i hi =>
          hends.before i (by omega)
        rw [hk] at hturn htotal hsame
        let last := Channel.toHost.waiting (Machine.stepOnce^[total - n] s.machine).map
        refine ⟨last, s', ?_, htotal, hsame, fun hkept => ?_⟩
        · rw [turnsFrom, hturn, if_pos hmet]
        · exact hs.waiting_eq fun i hi => hkept i (by omega)

/-! ### From the image to the end -/

/-- A session begins where the loaded computer stands, with nothing to write. -/
theorem exists_standing {config : Config} {image : List Byte} {built : Machine Devices}
    {entry : Word} (hconfig : o.config = .ok config)
    (hnew : Machine.new config ({} : Devices) = .ok built)
    (hload : built.loadImage image = (.ok entry, m)) (hnodup : o.breakpoints.Nodup)
    (hhalted : o.halted = false) :
    ∃ machine, o.prepare image = .ok machine ∧ Standing o m 0 { machine } := by
  obtain ⟨hsize, rfl⟩ := Machine.eq_fresh_of_new hnew
  have hsound := (Machine.reachable_fresh hsize ({} : Devices)).sound
  have hcontrol : m.control = {} := by
    have h := Machine.control_loadImage (Machine.fresh config ({} : Devices)) image
    rwa [hload] at h
  have hdevices : m.map.devices = {} := by
    have h := Machine.devices_loadImage hsound image
    rwa [hload] at h
  have hfree (addr : Word) : m.control.breakpoint? addr = none := by
    rw [hcontrol]
    exact Std.TreeMap.getElem?_emptyc
  obtain ⟨breakpoints, hbreak, harmed⟩ :=
    RunOptions.exists_withBreakpoints hnodup fun addr _ => hfree addr
  refine ⟨{ m with control := { m.control with breakpoints, mode := .running } }, ?_, ?_⟩
  · unfold RunOptions.prepare
    simp only [hconfig, hnew, hload, hbreak, hhalted, bind, Except.bind]
    rfl
  · refine ⟨rfl, ⟨rfl, rfl⟩, ⟨rfl, ?_, ?_, fun addr => ?_⟩, ?_⟩
    · rw [hcontrol]
    · rw [hcontrol]
    · refine (harmed addr).trans (or_iff_left ?_)
      rw [hfree addr]
      simp
    · show m.map.devices.sent.toList = []
      rw [hdevices]
      rfl

/-! ### What is said at the end -/

/-- A word at the end of a text is the mark and eight digits. -/
theorem append_fullWord (s label : String) (w : Word) :
    s ++ label ++ Text.fullWord w.toNat =
      s ++ (label ++ "0x") ++ String.ofList (Text.lowDigits 8 w.toNat) := by
  rw [Text.fullWord_eq, String.append_assoc, String.append_assoc, String.append_assoc]

theorem breakpointNote_eq (m : Machine Devices) (pc : Word) :
    breakpointNote m pc =
      "[rvbox] breakpoint at 0x" ++ String.ofList (Text.lowDigits 8 pc.toNat) ++ ": " ++
        (m.disassembleAt pc).getD "" ++ "\n" := by
  unfold breakpointNote
  rw [Text.fullWord_eq, ← String.append_assoc]
  rfl

theorem summary_eq {s' : Session} {last : Machine Devices} {total : Nat}
    (htotal : s'.total = total) (hsame : SameProgram s'.machine last) :
    s'.summary = "[rvbox] " ++ toString total ++ " instructions retired, pc = 0x" ++
      String.ofList (Text.lowDigits 8 last.pc.toNat) ++ ", a0 = 0x" ++
      String.ofList (Text.lowDigits 8 (last.hart.registers.get 10#5).toNat) ++ "\n" := by
  unfold summary Machine.pc
  rw [htotal, hsame.hart, append_fullWord, append_fullWord]
  rfl

end Session

/-- **Turns leave no trace.**  An image loads into a new computer and execution starts at its
entry; nobody debugs it and it is not to stay halted.  Then the session ends, however long its turns
are, with as many instructions completed as the limit and the first boundary at one of the
breakpoints allow.  It reports this number, and the counter and the register as that many plain
steps leave them, and before that names the breakpoint, exactly if the limit allows more.  If none
of these steps resets the link then what was written is what they sent, in order. -/
theorem turns_leave_no_trace {o : RunOptions} {config : Config} {image : List Byte}
    {built m : Machine Devices} {entry : Word} {total : Nat} (hconfig : o.config = .ok config)
    (hnew : Machine.new config ({} : Devices) = .ok built)
    (hload : built.loadImage image = (.ok entry, m)) (hnodup : o.breakpoints.Nodup)
    (hdebug : o.debug = none) (hhalted : o.halted = false)
    (htotal : min o.limit (o.firstMet m) = total) :
    let last := Machine.stepOnce^[total] m
    m.pc = entry ∧ ∀ size > 0, ∀ turns > total, ∃ output,
      run o image turns size = some {
        output
        notes := (if o.firstMet m < o.limit then "[rvbox] breakpoint at 0x" ++
            String.ofList (Text.lowDigits 8 last.pc.toNat) ++ ": " ++
            (last.disassembleAt last.pc).getD "" ++ "\n" else "") ++
          ("[rvbox] " ++ toString total ++ " instructions retired, pc = 0x" ++
            String.ofList (Text.lowDigits 8 last.pc.toNat) ++ ", a0 = 0x" ++
            String.ofList (Text.lowDigits 8 (last.hart.registers.get 10#5).toNat) ++ "\n") } ∧
      ((∀ i < total, ¬(Machine.stepOnce^[i] m).ResetsLink) →
        output = (List.range total).flatMap fun i => (Machine.stepOnce^[i] m).sends) := by
  intro last
  refine ⟨Machine.pc_of_loadImage hload, fun size hsize turns hturns => ?_⟩
  obtain ⟨machine, hprepare, hs⟩ :=
    Session.exists_standing hconfig hnew hload hnodup hhalted
  obtain ⟨output, s', hrun, hall, hsame, hsent⟩ := Session.turnsFrom_eq
    (RunOptions.ends_of_min_eq htotal) hdebug hsize hs (Nat.zero_le total) hturns
  refine ⟨output, ?_, fun hkept => ?_⟩
  · unfold run
    rw [hprepare]
    simp only [hrun, Session.summary_eq hall hsame, Session.breakpointNote_eq]
    rfl
  · rw [hsent hkept, List.range_eq_range']
    rfl

/-- A program that sends an `A` and stops at its fourth instruction: in turns of two instructions
the breakpoint is met within the second. -/
theorem turns_leave_no_trace_sending :
    let o : RunOptions := { path := "send", breakpoints := [0xC#32] }
    let image : List Byte := [0xB7#8, 0x05#8, 0x00#8, 0x10#8, 0x13#8, 0x05#8, 0x10#8, 0x04#8,
      0x23#8, 0xA2#8, 0xA5#8, 0x00#8, 0x6F#8, 0xF0#8, 0xDF#8, 0xFF#8]
    run o image 4 2 = some {
      output := [0x41#8]
      notes := "[rvbox] breakpoint at 0x0000000c: jal     zero, 0x8\n" ++
        "[rvbox] 3 instructions retired, pc = 0x0000000c, a0 = 0x00000041\n" } := by
  intro o image
  let config : Config := { ramSize := BitVec.ofNat 32 (o.ramKib * 1024) }
  let built : Machine Devices := Machine.fresh config {}
  let m : Machine Devices := (built.loadImage image).2
  have hconfig : o.config = .ok config := if_pos (by decide)
  have hnew : Machine.new config ({} : Devices) = .ok built := Machine.new_eq_ok (by decide) _
  have hload : built.loadImage image = (.ok 0#32, m) := by
    refine Prod.ext ?_ rfl
    decide +kernel
  have hbefore : ∀ i < 3, (Machine.stepOnce^[i] m).pc ∉ o.breakpoints ∧
      ¬(Machine.stepOnce^[i] m).ResetsLink := by decide +kernel
  have hlast : (Machine.stepOnce^[3] m).pc = 0xC#32 ∧
      (Machine.stepOnce^[3] m).disassembleAt 0xC#32 = some "jal     zero, 0x8" ∧
      (Machine.stepOnce^[3] m).hart.registers.get 10#5 = 0x41#32 ∧
      ((List.range 3).flatMap fun i => (Machine.stepOnce^[i] m).sends) = [0x41#8] := by
    decide +kernel
  obtain ⟨hpc, htext, ha0, hsends⟩ := hlast
  have hmet : o.firstMet m = (3 : Nat) := by
    refine le_antisymm (RunOptions.firstMet_le (hpc ▸ List.mem_singleton_self _)) ?_
    refine RunOptions.le_firstMet fun i hi => ?_
    exact_mod_cast Nat.le_of_not_lt fun hlt => (hbefore i hlt).1 hi
  have hlt : o.firstMet m < o.limit := by
    rw [hmet]
    exact ENat.natCast_lt_top 3
  have htotal : min o.limit (o.firstMet m) = (3 : Nat) := (min_eq_right hlt.le).trans hmet
  obtain ⟨-, hturns⟩ := turns_leave_no_trace hconfig hnew hload (by decide) rfl rfl htotal
  obtain ⟨output, hrun, hsent⟩ := hturns 2 (by decide) 4 (by decide)
  rw [hsent fun i hi => (hbefore i hi).2, hsends, if_pos hlt, hpc, htext, ha0] at hrun
  exact hrun

end Console

end HomeComputer
