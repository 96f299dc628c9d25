/-
The alignment policy and programs that need none.

An address that is a multiple of the width is left where it is by either policy.  A computer whose
policy was exchanged is the image of the old one under `Machine.aligning`, and the map of the new
one carries whatever is asked of the old one's; so a step of an instruction whose access is aligned
is carried over (`Hart.step_carry`), and what was asked of the bus is the same, word for word.

The induction is on the history.  Which accesses it makes is judged in one of the two runs; that
the other makes the same ones is part of what is proved, by the states agreeing before each step.
-/
import HomeComputer.Proofs.Machine.GuestWrites
import HomeComputer.Proofs.Processor.Carrying

namespace HomeComputer

/-- An aligned access is carried out where it is. -/
theorem Alignment.place_of_aligned (p : Alignment) {addr : Word} {w : Width}
    (h : addr.toNat % w.bytes = 0) : p.place addr w = addr := by
  apply BitVec.eq_of_toNat_eq
  rw [toNat_place]
  cases p with
  | split => rfl
  | force => exact Nat.div_mul_cancel (Nat.dvd_of_mod_eq_zero h)

/-! ### Buses that follow one another -/

section

variable {β γ : Type} [Bus β] [Bus γ]

/-- A transcript follows the bus that it is kept of. -/
theorem Transcript.carries_bus : Carries (Transcript.bus : Transcript β → β) :=
  ⟨fun _ _ => rfl, fun _ _ _ _ => rfl⟩

/-- The same transcript of another bus. -/
def Transcript.onto (f : β → γ) (t : Transcript β) : Transcript γ where
  bus := f t.bus
  log := t.log

theorem Transcript.carries_onto {f : β → γ} (hf : Carries f) : Carries (Transcript.onto f) where
  read t addr := by
    have hread : Bus.read (onto f t).bus addr = _ := hf.read t.bus addr
    show ((Bus.read (onto f t).bus addr).1, Transcript.mk (Bus.read (onto f t).bus addr).2 _) = _
    rw [hread]
    rfl
  write t addr value lanes := by
    have hwrite : Bus.write (onto f t).bus addr value lanes = _ := hf.write t.bus addr value lanes
    show Transcript.mk (Bus.write (onto f t).bus addr value lanes) _ = _
    rw [hwrite]
    rfl

end

namespace AddressMap

variable {δ : Type}

/-- The same map under another policy. -/
def aligning (p : Alignment) (m : AddressMap δ) : AddressMap δ := { m with alignment := p }

theorem carries_aligning [DeviceAccess δ] (p : Alignment) :
    Carries (aligning p : AddressMap δ → AddressMap δ) where
  read m addr := by
    show (m.aligning p).read addr = ((m.read addr).1, (m.read addr).2.aligning p)
    unfold read
    rw [show (m.aligning p).lookup addr.aligned = m.lookup addr.aligned from rfl]
    cases m.lookup addr.aligned with
    | none => rfl
    | some r => cases r with | mk start size backing => cases backing <;> rfl
  write m addr value lanes := by
    show (m.aligning p).write addr value lanes = (m.write addr value lanes).aligning p
    unfold write
    rw [show (m.aligning p).lookup addr.aligned = m.lookup addr.aligned from rfl]
    cases m.lookup addr.aligned with
    | none => rfl
    | some r => cases r with | mk start size backing => cases backing <;> rfl

end AddressMap

namespace Machine

variable {δ : Type}

/-- The same computer under another policy. -/
def aligning (p : Alignment) (m : Machine δ) : Machine δ := { m with map := m.map.aligning p }

theorem hart_aligning (p : Alignment) (m : Machine δ) : (m.aligning p).hart = m.hart := rfl

variable [DeviceAccess δ]

/-! ### What is asked of the bus -/

/-- What the next instruction asks of the bus. -/
def asked (m : Machine δ) : List Transaction :=
  (m.sampled.step ({ bus := m.map } : Transcript (AddressMap δ))).2.log

/-- The instruction that is written down is the one that runs. -/
theorem step_transcript (m : Machine δ) :
    m.sampled.step ({ bus := m.map } : Transcript (AddressMap δ)) =
      (m.stepOnce.hart, { bus := m.stepOnce.map, log := m.asked }) := by
  have hstep := Hart.step_carry Transcript.carries_bus m.sampled
    ({ bus := m.map } : Transcript (AddressMap δ)) fun _ _ _ => rfl
  have hhart : m.stepOnce.hart = _ := congrArg Prod.fst hstep
  have hmap : m.stepOnce.map = _ := congrArg Prod.snd hstep
  rw [hhart, hmap]
  rfl

/-- What an action asks of the bus. -/
def transactions (m : Machine δ) : Action → List Transaction
  | .tick => if m.tick.1 = .retired then m.asked else []
  | .stepOnce => m.asked
  | .ask _ | .reset => []

/-- What the actions of a history ask of the bus, in its order. -/
def transactionsAmong (m : Machine δ) : List Action → List Transaction
  | [] => []
  | a :: actions => m.transactions a ++ (m.act a).transactionsAmong actions

/-! ### Aligned programs -/

/-- If the next instruction loads or stores, it does so at a multiple of the width. -/
def Aligned (m : Machine δ) : Prop :=
  ∀ addr w, m.hart.Accesses (Access.fetch m.map m.pc).1 addr w → addr.toNat % w.bytes = 0

/-- Every instruction that a history runs does. -/
def AlignedAmong (m : Machine δ) : List Action → Prop
  | [] => True
  | a :: actions => (m.Retires a → m.Aligned) ∧ (m.act a).AlignedAmong actions

theorem AlignedAmong.of_prefix {m : Machine δ} {before actions : List Action}
    (h : m.AlignedAmong actions) (hbefore : before <+: actions) : m.AlignedAmong before := by
  induction before generalizing m actions with
  | nil => trivial
  | cons a before ih =>
      obtain ⟨rest, rfl⟩ := hbefore
      exact ⟨h.1, ih h.2 ⟨rest, rfl⟩⟩

/-! ### Steps -/

/-- Any two policies put the access of an aligned instruction at the same place. -/
theorem Aligned.place_eq {m : Machine δ} (hm : m.Aligned) (p q : Alignment) {addr : Word}
    {w : Width} (haccess : m.sampled.Accesses (Access.fetch m.map m.pc).1 addr w) :
    p.place addr w = q.place addr w := by
  have haligned := hm addr w haccess
  rw [p.place_of_aligned haligned, q.place_of_aligned haligned]

variable {m : Machine δ} (q : Alignment)

theorem stepOnce_aligning (hm : m.Aligned) :
    (m.aligning q).stepOnce = m.stepOnce.aligning q := by
  have hstep : (m.aligning q).sampled.step (m.map.aligning q) = _ :=
    Hart.step_carry (AddressMap.carries_aligning q) m.sampled m.map
      fun addr w haccess => hm.place_eq _ _ haccess
  unfold stepOnce
  rw [show (m.aligning q).map = m.map.aligning q from rfl, hstep]
  rfl

theorem asked_aligning (hm : m.Aligned) : (m.aligning q).asked = m.asked := by
  have hfetch := Transcript.carries_bus.fetch ({ bus := m.map } : Transcript (AddressMap δ)) m.pc
  have hstep := Hart.step_carry (Transcript.carries_onto (AddressMap.carries_aligning q))
    m.sampled ({ bus := m.map } : Transcript (AddressMap δ))
    fun addr w haccess => hm.place_eq _ _ (by
      rw [congrArg Prod.fst hfetch]
      exact haccess)
  exact congrArg (·.2.log) hstep

theorem tick_aligning (hm : m.tick.1 = .retired → m.Aligned) :
    (m.aligning q).tick = (m.tick.1, m.tick.2.aligning q) := by
  unfold tick at hm ⊢
  rw [show (m.aligning q).control = m.control from rfl]
  cases hmode : m.control.mode with
  | halted => rfl
  | step =>
      rw [hmode] at hm
      exact congrArg (Prod.mk _) (stepOnce_aligning q (hm rfl))
  | running =>
      rw [hmode] at hm
      rw [show (m.aligning q).pc = m.pc from rfl]
      cases hbreak : m.control.shouldBreak m.pc with
      | mk stops control =>
          simp only [hbreak] at hm
          cases stops with
          | true => rfl
          | false =>
              exact congrArg (Prod.mk _) (stepOnce_aligning q (m := { m with control }) (hm rfl))

theorem act_aligning {a : Action} (hm : m.Retires a → m.Aligned) :
    (m.aligning q).act a = (m.act a).aligning q := by
  cases a with
  | ask r => rfl
  | reset => rfl
  | stepOnce => exact stepOnce_aligning q (hm trivial)
  | tick => exact congrArg Prod.snd (tick_aligning q hm)

theorem transactions_aligning {a : Action} (hm : m.Retires a → m.Aligned) :
    (m.aligning q).transactions a = m.transactions a := by
  cases a with
  | ask r => rfl
  | reset => rfl
  | stepOnce => exact asked_aligning q (hm trivial)
  | tick =>
      unfold transactions
      rw [tick_aligning q hm]
      by_cases hretired : m.tick.1 = .retired
      · rw [if_pos hretired, if_pos hretired, asked_aligning q (hm hretired)]
      · rw [if_neg hretired, if_neg hretired]

/-- What a history of aligned accesses comes to does not depend on the policy. -/
theorem actAll_aligning {actions : List Action} (hm : m.AlignedAmong actions) :
    (m.aligning q).actAll actions = (m.actAll actions).aligning q ∧
      (m.aligning q).transactionsAmong actions = m.transactionsAmong actions := by
  induction actions generalizing m with
  | nil => exact ⟨rfl, rfl⟩
  | cons a actions ih =>
      obtain ⟨hfirst, hrest⟩ := hm
      obtain ⟨hstates, htransactions⟩ := ih hrest
      have hact := act_aligning q hfirst
      refine ⟨?_, ?_⟩
      · show ((m.aligning q).act a).actAll actions = _
        rw [hact, hstates]
        rfl
      · show (m.aligning q).transactions a ++ ((m.aligning q).act a).transactionsAmong actions = _
        rw [hact, htransactions, transactions_aligning q hfirst]
        rfl

/-- **Aligned programs do not see the alignment policy.**  A computer is run through a history
under one policy and under another.  If in one of the two runs every load and store that is
executed has an effective address that is a multiple of its width, then at every moment of the
history the two runs agree: the registers, the control registers and the trap, all memory and the
devices are the same, and so is all that was asked of the bus, in the same order. -/
theorem alignment_unseen (m : Machine δ) (p q : Alignment) {actions : List Action}
    (hm : (m.aligning p).AlignedAmong actions) :
    ∀ before, before <+: actions →
      (m.aligning q).actAll before = ((m.aligning p).actAll before).aligning q ∧
      (m.aligning q).transactionsAmong before = (m.aligning p).transactionsAmong before := by
  intro before hbefore
  exact actAll_aligning q (hm.of_prefix hbefore)

/-- `sh a0, 2(a1)` and `lh a2, 2(a1)`, fetched at odd halves of words. -/
theorem alignment_unseen_halves :
    let program := ((Store.zeros 8).setWord 0 0x00a59123#32).setWord 1 0x00259603#32
    let m : Machine Devices := {
      hart := { pc := 2#32, registers := (Registers.zero.set 10#5 0xbeef#32).set 11#5 0x100#32 }
      map := {
        regions := [{ start := 0#32, size := 8#32, backing := .boot program },
          Region.ram 0x100#32 4#32]
        devices := {} }
      resetPc := 0#32 }
    let run := [Action.stepOnce, Action.stepOnce]
    (m.aligning .split).AlignedAmong run ∧
    ((m.aligning .split).actAll run).hart.registers.get 12#5 = 0xffffbeef#32 ∧
    ((m.aligning .force).actAll run).hart.registers.get 12#5 = 0xffffbeef#32 ∧
    (m.aligning .force).transactionsAmong run =
      [.read 0#32, .write 0x100#32 0xbeefbeef#32 0b1100#4, .read 4#32, .read 0x100#32] := by
  intro program m run
  have hstoring : (Access.fetch (m.aligning .split).map 2#32).1 = 0x00a59123#32 := by decide +kernel
  have hloading : (Access.fetch ((m.aligning .split).act .stepOnce).map
      ((m.aligning .split).act .stepOnce).pc).1 = 0x00259603#32 := by decide +kernel
  have hrun : (m.aligning .split).AlignedAmong run := by
    refine ⟨fun _ addr w haccess => ?_, fun _ addr w haccess => ?_, trivial⟩
    · have hpc : (m.aligning .split).pc = 2#32 := rfl
      rw [hpc, hstoring] at haccess
      obtain ⟨-, ⟨⟨_, hloads⟩, -⟩ | ⟨hstores, haddr⟩⟩ := haccess
      · exact absurd hloads.opcode_eq (by decide)
      · cases hstores with
        | sh =>
            rw [haddr]
            decide +kernel
        | sb _ hn | sw _ hn => exact absurd hn (by decide)
    · rw [hloading] at haccess
      obtain ⟨-, ⟨⟨_, hloads⟩, haddr⟩ | ⟨hstores, -⟩⟩ := haccess
      · cases hloads with
        | lh =>
            rw [haddr]
            decide +kernel
        | lb _ hn | lw _ hn | lbu _ hn | lhu _ hn => exact absurd hn (by decide)
      · exact absurd hstores.opcode_eq (by decide)
  have hsame := alignment_unseen m .split .force hrun run (List.prefix_refl run)
  have hloaded : ((m.aligning .split).actAll run).hart.registers.get 12#5 = 0xffffbeef#32 := by
    decide +kernel
  refine ⟨hrun, hloaded, ?_, ?_⟩
  · rw [hsame.1, hart_aligning]
    exact hloaded
  · rw [hsame.2]
    decide +kernel

end Machine

end HomeComputer
