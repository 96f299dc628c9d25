/-
What a step leaves in the control registers.

An instruction leaves them in one of three ways: as it found them, with one of them written, or as
the return from a trap leaves them (`Hart.left_cases`).  What the step then counts and records
depends only on the trap that it ends with (`Hart.csr_step_cases`).  Whatever control registers do
over a history is read off these two, and nobody looks at single instructions any more.

The histories are those in which lines are raised and memory changes between the steps.
`Hart.EachStep` asks something of every step of one, and `EachStep.invariant` is the induction: what
each such step keeps, and a line that is raised or cleared does too, is kept by all of it.
-/
import HomeComputer.Proofs.Processor.ControlRegisters

namespace HomeComputer

namespace Hart

variable {β : Type} [Bus β] {h : Hart} {bus : β}

/-! ### Who writes a control register -/

/-- The next step executes an instruction that writes `v` to the control register `r`: its fields
name `r`, it is of those that write, `r` may be written, and `v` is what it makes of the old
content and its operand. -/
def WritesCsr (h : Hart) (bus : β) (r : Csr) (v : Word) : Prop :=
  let raw := (Access.fetch bus h.pc).1
  ∃ a immediate, h.Executes bus (.csr a immediate) ∧ Manual.field raw 20 12 = r.number.toNat ∧
    a.Writes (Manual.rs1 raw) ∧ ¬Csr.isReadOnly r.number = true ∧
    v = a.combine (h.csr.get r) (h.csrOperand immediate raw)

variable {a : CsrAction} {immediate : Bool}

/-- Only the set of control registers has these operations, in words with the manual's codes. -/
theorem Executes.codes (hx : h.Executes bus (.csr a immediate)) :
    .zicsr ∈ h.isa ∧ Manual.opcode (Access.fetch bus h.pc).1 = 0x73 ∧
      Manual.funct3 (Access.fetch bus h.pc).1 = (a.code immediate).toNat := by
  obtain ⟨insn, hd⟩ := hx
  obtain ⟨e, he, op, hop, hfound⟩ := Extension.claims_of_decodeBy hd
  obtain rfl : op = .csr a immediate := congrArg Decoded.operation hfound
  have hencodes := Extension.encodes_of_operation? hop
  have hsame : e = .zicsr := Extension.eq_of_claims hop
    (Extension.operation?_csr hencodes.opcode hencodes.funct3)
  exact ⟨hsame ▸ he, hencodes.manual_opcode, hencodes.manual_funct3 rfl⟩

/-- An access to a register by its number is illegal if it is to write what may only be read, and
otherwise hands over the old content and writes, if it is one that does. -/
theorem performWord_of_executes_csr (hx : h.Executes bus (.csr a immediate)) {r : Csr}
    (hnumber : Manual.field (Access.fetch bus h.pc).1 20 12 = r.number.toNat) :
    let raw := (Access.fetch bus h.pc).1
    let start := Context.start h.pc h.registers h.csr (Access.fetch bus h.pc).2
    h.performWord raw (Access.fetch bus h.pc).2 =
      if a.Writes (Manual.rs1 raw) ∧ Csr.isReadOnly r.number = true then
        .raised .illegalInstruction start
      else .completed { start with
        registers := h.registers.set raw.rd (h.csr.get r)
        csr :=
          if a.Writes (Manual.rs1 raw) then
            h.csr.set r (a.combine (h.csr.get r) (h.csrOperand immediate raw))
          else h.csr } := by
  intro raw start
  obtain ⟨hz, hopcode, hfunct3⟩ := hx.codes
  have hlt : Manual.field raw 20 12 < 2 ^ 12 := Nat.mod_lt _ (by decide)
  have hfound := (Csr.ofNumber?_eq_some_iff hlt).mpr hnumber.symm
  rw [performWord_csr hz hopcode hfunct3 (Access.fetch bus h.pc).2, hfound]

/-! ### What an instruction leaves -/

theorem left_of_completed {c : Context β}
    (hc : h.performWord (Access.fetch bus h.pc).1 (Access.fetch bus h.pc).2 = .completed c) :
    h.left bus = c := by
  unfold left
  rw [hc]

theorem left_of_raised {e : Exception}
    (hr : h.performWord (Access.fetch bus h.pc).1 (Access.fetch bus h.pc).2 =
      .raised e (Context.start h.pc h.registers h.csr (Access.fetch bus h.pc).2)) :
    h.left bus = Context.start h.pc h.registers h.csr (Access.fetch bus h.pc).2 := by
  unfold left
  rw [hr]

/-- An instruction that writes a control register completes, and has written that one. -/
theorem WritesCsr.completes {r : Csr} {v : Word} (hw : h.WritesCsr bus r v) :
    h.performWord (Access.fetch bus h.pc).1 (Access.fetch bus h.pc).2 = .completed (h.left bus) ∧
      (h.left bus).csr = h.csr.set r v := by
  obtain ⟨a, immediate, hx, hnumber, hwrites, hwritable, rfl⟩ := hw
  have hperform := performWord_of_executes_csr hx hnumber
  simp only [if_neg fun hillegal : _ ∧ _ => hwritable hillegal.2, if_pos hwrites] at hperform
  rw [left_of_completed hperform]
  exact ⟨hperform, rfl⟩

/-- The word has the manual's codes and the number of the register. -/
theorem WritesCsr.fields {r : Csr} {v : Word} (hw : h.WritesCsr bus r v) :
    Manual.opcode (Access.fetch bus h.pc).1 = 0x73 ∧
      Manual.field (Access.fetch bus h.pc).1 20 12 = r.number.toNat := by
  obtain ⟨a, immediate, hx, hnumber, -⟩ := hw
  exact ⟨hx.codes.2.1, hnumber⟩

/-- **An instruction leaves the control registers alone, returns from a trap, or writes one.** -/
theorem left_cases (h : Hart) (bus : β) :
    (h.left bus).csr = h.csr ∨
    (h.Executes bus .mret ∧ (h.left bus).csr = h.csr.leaveTrap.2) ∨
    ∃ r v, h.WritesCsr bus r v ∧ (h.left bus).csr = h.csr.set r v := by
  rcases step_cases h bus with ⟨c, hc, -⟩ | ⟨e, hraised, -⟩
  · rw [left_of_completed hc]
    obtain ⟨⟨op, insn⟩, hd, hperformed⟩ := exists_of_performWord hc
    by_cases haccess : ∃ a immediate, op = .csr a immediate
    · obtain ⟨a, immediate, rfl⟩ := haccess
      have hx : h.Executes bus (.csr a immediate) := ⟨insn, hd⟩
      obtain ⟨hz, hopcode, hfunct3⟩ := hx.codes
      have hperform := performWord_csr hz hopcode hfunct3 (Access.fetch bus h.pc).2
      have hlt : Manual.field (Access.fetch bus h.pc).1 20 12 < 2 ^ 12 :=
        Nat.mod_lt _ (by decide)
      cases hfound : Csr.ofNumber? (BitVec.ofNat 16 (Manual.field (Access.fetch bus h.pc).1 20 12))
      with
      | none =>
          rw [hfound] at hperform
          cases hc.symm.trans hperform
      | some r =>
          have hnumber := ((Csr.ofNumber?_eq_some_iff hlt).mp hfound).symm
          rw [hc, hfound] at hperform
          by_cases hwrites : a.Writes (Manual.rs1 (Access.fetch bus h.pc).1)
          · by_cases hro : Csr.isReadOnly r.number = true
            · simp only [if_pos (And.intro hwrites hro)] at hperform
              cases hperform
            · simp only [if_neg fun hillegal : _ ∧ _ => hro hillegal.2, if_pos hwrites] at hperform
              rw [Outcome.completed.inj hperform]
              exact .inr (.inr ⟨r, _, ⟨a, immediate, hx, hnumber, hwrites, hro, rfl⟩, rfl⟩)
          · simp only [if_neg fun hillegal : _ ∧ _ => hwrites hillegal.1, if_neg hwrites]
              at hperform
            rw [Outcome.completed.inj hperform]
            exact .inl rfl
    · by_cases hreturn : op = .mret
      · subst hreturn
        obtain rfl := Outcome.completed.inj hperformed
        exact .inr (.inl ⟨⟨insn, hd⟩, rfl⟩)
      · exact .inl (csr_of_perform hreturn (fun a i hop => haccess ⟨a, i, hop⟩) hperformed)
  · rw [left_of_raised hraised]
    exact .inl rfl

/-- **What a step counts and records.**  One that ends in no trap has counted; so has one that ends
in an interrupt, which was due, and it has recorded that besides.  One that ends in an exception
found the control registers as they were, and counts a cycle only. -/
theorem csr_step_cases (h : Hart) (bus : β) :
    ((h.step bus).1.trap = .none ∧ (h.step bus).1.csr = counted (h.left bus).csr) ∨
    (∃ line, (h.step bus).1.trap = .interrupt line ∧ (h.left bus).csr.pending? = some line ∧
      (h.step bus).1.csr = ((counted (h.left bus).csr).enterTrap
        (Trap.interruptFlag ||| line.setWidth 32) (h.left bus).next 0#32).2) ∨
    ∃ e, (h.step bus).1.trap = .exception e ∧ (h.left bus).csr = h.csr ∧
      (h.step bus).1.csr = ((countCycle h.csr).enterTrap e.code h.pc
        (trapValue (Access.fetch bus h.pc).1 h.pc e)).2 := by
  rcases step_cases h bus with ⟨c, hc, hstep⟩ | ⟨e, hraised, hstep⟩
  · rw [left_of_completed hc, hstep]
    cases hp : c.csr.pending? with
    | none =>
        have hdue : (h.adopt c).csr.pending? = none := hp
        rw [complete_of_none hdue]
        exact .inl ⟨rfl, rfl⟩
    | some line =>
        have hdue : (h.adopt c).csr.pending? = some line := hp
        rw [complete_of_some hdue]
        exact .inr (.inl ⟨line, rfl, rfl, rfl⟩)
  · rw [left_of_raised hraised, hstep]
    exact .inr (.inr ⟨e, rfl, rfl, rfl⟩)

/-- The registers after a step are those that the instruction left. -/
theorem registers_step_left (h : Hart) (bus : β) :
    (h.step bus).1.registers = (h.left bus).registers := by
  rcases step_cases h bus with ⟨c, hc, hstep⟩ | ⟨e, hraised, hstep⟩
  · rw [left_of_completed hc, hstep, registers_complete]
    rfl
  · rw [left_of_raised hraised, hstep]
    rfl

/-- A step whose instruction completes ends in no exception. -/
theorem trap_ne_exception_of_completed {x : Context β}
    (hx : h.performWord (Access.fetch bus h.pc).1 (Access.fetch bus h.pc).2 = .completed x)
    (e : Exception) : (h.step bus).1.trap ≠ .exception e := by
  rcases step_cases h bus with ⟨x', -, hstep⟩ | ⟨e', hraised, -⟩
  · rw [hstep]
    exact trap_complete_ne_exception x'.next e rfl
  · cases hx.symm.trans hraised

/-- An access that is not refused raises no exception, and puts what the register showed before the
step into the destination. -/
theorem step_of_executes_csr {a : CsrAction} {immediate : Bool} {r : Csr}
    (hx : h.Executes bus (.csr a immediate))
    (hnumber : Manual.field (Access.fetch bus h.pc).1 20 12 = r.number.toNat)
    (hlegal : ¬(a.Writes (Manual.rs1 (Access.fetch bus h.pc).1) ∧
      Csr.isReadOnly r.number = true)) :
    (∀ e, (h.step bus).1.trap ≠ .exception e) ∧
      ∀ q : Reg, q.toNat = Manual.rd (Access.fetch bus h.pc).1 → q ≠ 0#5 →
        (h.step bus).1.registers.get q = h.csr.get r := by
  have hperform := performWord_of_executes_csr hx hnumber
  simp only [if_neg hlegal] at hperform
  refine ⟨trap_ne_exception_of_completed hperform, fun q hq hzero => ?_⟩
  rw [registers_step_left, left_of_completed hperform]
  exact (h.registers.get_set_rd _ _ q).trans (if_pos ⟨hq, hzero⟩)

/-! ### Histories -/

/-- Every step of a history meets a condition. -/
def EachStep (p : Hart → β → Prop) (s : Hart × β) : List (Event β) → Prop
  | [] => True
  | a :: history => (a = .step → p s.1 s.2) ∧ EachStep p (occur s a) history

namespace EachStep

variable {p : Hart → β → Prop} {s : Hart × β}

theorem of_append {before after : List (Event β)} (hp : EachStep p s (before ++ after)) :
    EachStep p s before ∧ EachStep p (occurAll s before) after := by
  induction before generalizing s with
  | nil => exact ⟨trivial, hp⟩
  | cons a before ih =>
      obtain ⟨hbefore, hafter⟩ := ih hp.2
      exact ⟨⟨hp.1, hbefore⟩, hafter⟩

/-- What every such step keeps, and a line that is raised or cleared does too, the history keeps. -/
theorem invariant {kept : Hart → Prop} {history : List (Event β)} (hp : EachStep p s history)
    (hs : kept s.1) (hstep : ∀ h bus, kept h → p h bus → kept (h.step bus).1)
    (hline : ∀ h number level, kept h → kept (h.setPending number level)) :
    kept (occurAll s history).1 := by
  induction history generalizing s with
  | nil => exact hs
  | cons a history ih =>
      refine ih hp.2 ?_
      cases a with
      | step => exact hstep s.1 s.2 hs (hp.1 rfl)
      | line number level => exact hline s.1 number level hs
      | outside bus => exact hs

end EachStep

end Hart

end HomeComputer
