/-
The guest does not see its output being taken.

What the guest has sent waits in a queue that no cell shows: the link says at any time that bytes
can be sent, and how many wait is the host's concern.  A map whose output was taken therefore
carries whatever is asked of the map with it (`AddressMap.carries_unsent`), and two computers that
differ in nothing else the guest can see run the same program, whenever their output is taken
(`Machine.SameProgram`).

What an instruction sends is read off what it asks of its bus, and so is whether it resets the link.
The map after an instruction is the one before it with these requests carried out in their order
(`map_stepOnce`), so that the account of the queue (`Channel.waiting_append_gather`) holds for it:
without a reset the bytes of every instruction are added to those that wait.
-/
import HomeComputer.Proofs.Devices.Channels
import HomeComputer.Proofs.Machine.Alignment

namespace HomeComputer

/-- What a request of the guest does with the devices. -/
def Transaction.exchange : Transaction → Exchange
  | .read addr => .read addr
  | .write addr value lanes => .write addr value lanes

/-! ### Taking what was sent -/

namespace Devices

theorem read_takeSent (d : Devices) (cell : Word) :
    d.takeSent.2.read cell = ((d.read cell).1, (d.read cell).2.takeSent.2) := by
  unfold read
  split
  · rfl
  · split <;> rfl

/-- Whether what was sent is taken before a write or only after it, none of it is left. -/
theorem takeSent_write (d : Devices) (cell value : Word) (lanes : Lanes) :
    (d.takeSent.2.write cell value lanes).takeSent.2 = (d.write cell value lanes).takeSent.2 := by
  unfold write
  split
  · rfl
  · split <;> rfl

end Devices

namespace AddressMap

variable (m : AddressMap Devices)

/-- The map after the host took everything that the guest had sent. -/
def drained : AddressMap Devices := m.exchange .takeSent

theorem lines_drained : m.drained.lines = m.lines := rfl

theorem peek_drained (addr : Word) : m.drained.peek addr = m.peek addr := by
  unfold peek
  rw [show m.drained.lookup addr.aligned = m.lookup addr.aligned from rfl]
  cases m.lookup addr.aligned with
  | none => rfl
  | some r => cases r with | mk start size backing => cases backing <;> rfl

theorem read_drained (addr : Word) :
    m.drained.read addr = ((m.read addr).1, (m.read addr).2.drained) := by
  unfold read
  rw [show m.drained.lookup addr.aligned = m.lookup addr.aligned from rfl]
  cases m.lookup addr.aligned with
  | none => rfl
  | some r =>
      cases hstore : r.backing.store? with
      | some s => simp only [hstore]
      | none =>
          have hread := m.devices.read_takeSent addr.aligned
          simp only [hstore]
          exact congrArg (fun r : Option Word × Devices => (r.1, { m with devices := r.2 })) hread

theorem write_drained (addr value : Word) (lanes : Lanes) :
    (m.drained.write addr value lanes).drained = (m.write addr value lanes).drained := by
  unfold write
  rw [show m.drained.lookup addr.aligned = m.lookup addr.aligned from rfl]
  cases m.lookup addr.aligned with
  | none => rfl
  | some r =>
      have hwrite := m.devices.takeSent_write addr.aligned value lanes
      cases hbacking : r.backing with
      | boot s | ram s =>
          simp only [hbacking]
          rfl
      | window =>
          simp only [hbacking]
          exact congrArg (fun devices => { m with devices }) hwrite

end AddressMap

/-- A map without its output: whatever is done to it, what is sent is taken at once. -/
structure Unsent where
  map : AddressMap Devices

instance : Bus Unsent where
  read u addr := ((u.map.read addr).1, ⟨(u.map.read addr).2.drained⟩)
  peek u addr := u.map.peek addr
  write u addr value lanes := ⟨(u.map.write addr value lanes).drained⟩
  alignment u := u.map.alignment

namespace AddressMap

def unsent (m : AddressMap Devices) : Unsent := ⟨m.drained⟩

/-- Nothing that a hart asks is answered otherwise when the output is taken. -/
theorem carries_unsent : Carries unsent where
  read m addr := by
    show ((m.drained.read addr).1, Unsent.mk (m.drained.read addr).2.drained) = _
    rw [m.read_drained]
    rfl
  write m addr value lanes := congrArg Unsent.mk (m.write_drained addr value lanes)

end AddressMap

/-! ### What an instruction sends -/

namespace Channel

/-- The guest takes nothing that it sent. -/
theorem gather_went_toHost (m : AddressMap Devices) (asked : List Transaction) :
    m.gather toHost.went (asked.map Transaction.exchange) = [] := by
  induction asked generalizing m with
  | nil => rfl
  | cons t asked ih =>
      cases t with
      | read addr => exact ih _
      | write addr value lanes => exact ih _

/-- Which bytes are sent is decided by where the windows are. -/
theorem gather_came_toHost {m m' : AddressMap Devices}
    (hcells : ∀ addr, m.cell? addr = m'.cell? addr) (history : List Exchange) :
    m.gather toHost.came history = m'.gather toHost.came history := by
  induction history generalizing m m' with
  | nil => rfl
  | cons e history ih =>
      have hcells' (addr : Word) : (m.exchange e).cell? addr = (m'.exchange e).cell? addr := by
        rw [AddressMap.cell?_exchange, AddressMap.cell?_exchange, hcells]
      have hfirst : toHost.came m e = toHost.came m' e := by
        cases e with
        | write addr value lanes => simp only [came, hcells]
        | pushKey _ | popKey | send _ | takeSent | read _ | peek _ => rfl
      show toHost.came m e ++ _ = toHost.came m' e ++ _
      rw [hfirst, ih hcells']

end Channel

namespace Machine

/-- What the next instruction does with the devices. -/
def exchanges (m : Machine Devices) : List Exchange := m.asked.map Transaction.exchange

/-- The bytes that the next instruction sends to the host. -/
def sends (m : Machine Devices) : List Byte := m.map.gather Channel.toHost.came m.exchanges

/-- The next instruction resets the link. -/
def ResetsLink (m : Machine Devices) : Prop := ∃ e ∈ m.exchanges, m.map.Resets e

instance (m : Machine Devices) : Decidable m.ResetsLink :=
  inferInstanceAs (Decidable (∃ e ∈ m.exchanges, m.map.Resets e))

/-- What is asked of a bus with a transcript happens to the map behind it. -/
theorem exchangeAll_of_accessed {meant : Word → Prop} {m : AddressMap Devices}
    {t : Transcript (AddressMap Devices)}
    (h : Accessed meant ({ bus := m } : Transcript (AddressMap Devices)) t) :
    t.bus = m.exchangeAll (t.log.map Transaction.exchange) := by
  induction h with
  | refl => rfl
  | @read t _ addr ih =>
      show (t.bus.read addr).2 =
        m.exchangeAll ((t.log ++ [Transaction.read addr]).map Transaction.exchange)
      rw [List.map_append, AddressMap.exchangeAll, List.foldl_append]
      exact congrArg (fun map => (AddressMap.read map addr).2) ih
  | @write t _ base _ value lanes _ ih =>
      show t.bus.write base value lanes =
        m.exchangeAll ((t.log ++ [Transaction.write base value lanes]).map Transaction.exchange)
      rw [List.map_append, AddressMap.exchangeAll, List.foldl_append]
      exact congrArg (fun map => AddressMap.write map base value lanes) ih

/-- The map after an instruction is the one before it with what the instruction asked for done. -/
theorem map_stepOnce (m : Machine Devices) : m.stepOnce.map = m.map.exchangeAll m.exchanges := by
  have h := exchangeAll_of_accessed
    (m.sampled.accessed_step ({ bus := m.map } : Transcript (AddressMap Devices)))
  rwa [m.step_transcript] at h

/-- Without a reset the bytes of an instruction are added to those that wait. -/
theorem waiting_stepOnce {m : Machine Devices} (hkept : ¬m.ResetsLink) :
    Channel.toHost.waiting m.stepOnce.map = Channel.toHost.waiting m.map ++ m.sends := by
  have hleft : m.map.gather Channel.toHost.left m.exchanges = [] := by
    rw [Channel.gather_left _ (.inr fun e he hreset => hkept ⟨e, he, hreset⟩)]
    exact Channel.gather_went_toHost m.map m.asked
  have hall := Channel.toHost.waiting_append_gather m.map m.exchanges
  rw [hleft, List.nil_append, ← m.map_stepOnce] at hall
  exact hall.symm

/-- So are those of any number of instructions, one after the other. -/
theorem waiting_iterate_stepOnce {m : Machine Devices} {n : Nat}
    (hkept : ∀ i < n, ¬(stepOnce^[i] m).ResetsLink) :
    Channel.toHost.waiting (stepOnce^[n] m).map =
      Channel.toHost.waiting m.map ++ (List.range n).flatMap fun i => (stepOnce^[i] m).sends := by
  induction n with
  | zero => exact (List.append_nil _).symm
  | succ n ih =>
      rw [Function.iterate_succ_apply', waiting_stepOnce (hkept n (Nat.lt_succ_self n)),
        ih fun i hi => hkept i (Nat.lt_succ_of_lt hi), List.range_succ, List.flatMap_append,
        List.append_assoc]
      simp only [List.flatMap_cons, List.flatMap_nil, List.append_nil]

/-! ### The same program -/

/-- Two computers with the same hart and memory and the same devices, apart from what was sent. -/
structure SameProgram (m m' : Machine Devices) : Prop where
  hart : m.hart = m'.hart
  map : m.map.drained = m'.map.drained

namespace SameProgram

variable {m m' : Machine Devices}

theorem sampled (h : SameProgram m m') : m.sampled = m'.sampled := by
  unfold Machine.sampled
  rw [h.hart, ← m.map.lines_drained, h.map, m'.map.lines_drained]

/-- The next instruction is the same, and leaves the same. -/
theorem stepOnce (h : SameProgram m m') : SameProgram m.stepOnce m'.stepOnce := by
  have hstep (m : Machine Devices) :
      m.sampled.step m.map.unsent = (m.stepOnce.hart, m.stepOnce.map.unsent) :=
    Hart.step_carry AddressMap.carries_unsent m.sampled m.map fun _ _ _ => rfl
  have hunsent : m.map.unsent = m'.map.unsent := congrArg Unsent.mk h.map
  have hsame := hstep m
  rw [h.sampled, hunsent, hstep m'] at hsame
  exact ⟨(congrArg Prod.fst hsame).symm, (congrArg (·.2.map) hsame).symm⟩

theorem iterate (h : SameProgram m m') (n : Nat) :
    SameProgram (Machine.stepOnce^[n] m) (Machine.stepOnce^[n] m') := by
  induction n generalizing m m' with
  | zero => exact h
  | succ n ih => exact ih h.stepOnce

theorem asked (h : SameProgram m m') : m.asked = m'.asked := by
  have hlog (m : Machine Devices) : (m.sampled.step
      ({ bus := m.map.unsent } : Transcript Unsent)).2.log = m.asked :=
    congrArg (·.2.log) (Hart.step_carry (Transcript.carries_onto AddressMap.carries_unsent)
      m.sampled ({ bus := m.map } : Transcript (AddressMap Devices)) fun _ _ _ => rfl)
  have hunsent : m.map.unsent = m'.map.unsent := congrArg Unsent.mk h.map
  rw [← hlog m, ← hlog m', h.sampled, hunsent]

theorem cell?_eq (h : SameProgram m m') (addr : Word) : m.map.cell? addr = m'.map.cell? addr := by
  show m.map.drained.cell? addr = m'.map.drained.cell? addr
  rw [h.map]

theorem sends (h : SameProgram m m') : m.sends = m'.sends := by
  unfold Machine.sends exchanges
  rw [h.asked, Channel.gather_came_toHost h.cell?_eq]

theorem resetsLink_iff (h : SameProgram m m') : m.ResetsLink ↔ m'.ResetsLink := by
  have hresets (e : Exchange) : m.map.Resets e ↔ m'.map.Resets e := by
    rw [← m.map.resets_exchange .takeSent, ← m'.map.resets_exchange .takeSent]
    exact iff_of_eq (congrArg (AddressMap.Resets · e) h.map)
  unfold ResetsLink exchanges
  simp only [h.asked, hresets]

theorem disassembleAt (h : SameProgram m m') (addr : Word) :
    m.disassembleAt addr = m'.disassembleAt addr := by
  unfold Machine.disassembleAt
  rw [← m.map.peek_drained, h.map, m'.map.peek_drained]

end SameProgram

end Machine

end HomeComputer
