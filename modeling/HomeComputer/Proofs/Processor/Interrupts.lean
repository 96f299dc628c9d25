/-
Interrupts are taken exactly when they are due.

The hart looks for an interrupt at one place only, the boundary after an instruction that
completed, and it looks at the control registers as that instruction left them: an
instruction that lets interrupts through, raises a line or moves the handler is already
obeyed at its own boundary.  `Interrupted` says what is found after a step in which one was
taken: the instruction's own effects, all of them, and on top of them the trap.

Taking an interrupt changes neither the lines nor what lets them through, so which line was
taken can still be checked in the state afterwards: it is the highest of those that are
raised and let through.
-/
import HomeComputer.Memory.WordMemory
import HomeComputer.Proofs.Processor.BaseInstructions

namespace HomeComputer

/-! ### The line that is due -/

namespace CsrFile

theorem highestBit?_eq_none {w : Word} {n : Nat} (hn : highestBit? w n = none) :
    ∀ j < n, w.getLsbD j = false := by
  induction n with
  | zero => intro j hj; omega
  | succ n ih =>
      intro j hj
      unfold highestBit? at hn
      by_cases hbit : w.getLsbD n = true
      · rw [if_pos hbit] at hn
        cases hn
      · rw [if_neg hbit] at hn
        rcases Nat.lt_succ_iff_lt_or_eq.mp hj with hlt | rfl
        · exact ih hn j hlt
        · exact Bool.eq_false_iff.mpr hbit

theorem highestBit?_eq_some {w : Word} {n i : Nat} (hi : highestBit? w n = some i) :
    i < n ∧ w.getLsbD i = true ∧ ∀ j < n, w.getLsbD j = true → j ≤ i := by
  induction n with
  | zero => cases hi
  | succ n ih =>
      unfold highestBit? at hi
      by_cases hbit : w.getLsbD n = true
      · rw [if_pos hbit] at hi
        obtain rfl := Option.some.inj hi
        exact ⟨Nat.lt_succ_self n, hbit, fun j hj _ => Nat.le_of_lt_succ hj⟩
      · rw [if_neg hbit] at hi
        obtain ⟨hlt, hset, hhighest⟩ := ih hi
        refine ⟨Nat.lt_succ_of_lt hlt, hset, ?_⟩
        intro j hj hj'
        rcases Nat.lt_succ_iff_lt_or_eq.mp hj with hjn | rfl
        · exact hhighest j hjn hj'
        · exact absurd hj' hbit

/-- No interrupt is due while none is taken, or none is both raised and let through. -/
theorem pending?_eq_none_iff (f : CsrFile) :
    f.pending? = none ↔ f.mstatus.mie = false ∨ f.mip &&& f.mie = 0#32 := by
  unfold pending?
  by_cases hmie : f.mstatus.mie = true
  · rw [if_pos hmie, Option.map_eq_none_iff]
    constructor
    · intro hnone
      refine Or.inr (BitVec.eq_of_getLsbD_eq fun j hj => ?_)
      rw [highestBit?_eq_none hnone j hj, BitVec.getLsbD_zero]
    · rintro (hmasked | hzero)
      · rw [hmie] at hmasked
        cases hmasked
      · rw [hzero]
        rfl
  · rw [if_neg hmie]
    simp [Bool.eq_false_iff.mpr hmie]

/-- The interrupt that is due is the highest of those raised and let through. -/
theorem pending?_eq_some {f : CsrFile} {line : Byte} (hp : f.pending? = some line) :
    f.mstatus.mie = true ∧ line.toNat < 32 ∧ (f.mip &&& f.mie).getLsbD line.toNat = true ∧
      ∀ j, (f.mip &&& f.mie).getLsbD j = true → j ≤ line.toNat := by
  unfold pending? at hp
  by_cases hmie : f.mstatus.mie = true
  · rw [if_pos hmie] at hp
    obtain ⟨i, hi, rfl⟩ := Option.map_eq_some_iff.mp hp
    obtain ⟨hlt, hset, hhighest⟩ := highestBit?_eq_some hi
    have hline : (BitVec.ofNat 8 i).toNat = i := by
      rw [BitVec.toNat_ofNat]
      omega
    rw [hline]
    refine ⟨hmie, hlt, hset, ?_⟩
    intro j hj
    by_cases hj32 : j < 32
    · exact hhighest j hj32 hj
    · rw [BitVec.getLsbD_of_ge _ j (by omega)] at hj
      cases hj
  · rw [if_neg hmie] at hp
    cases hp

end CsrFile

namespace Hart

variable {β : Type}

/-! ### A step with an interrupt at its end -/

/-- What a step of `before` leaves when its instruction left the context `c` and an interrupt
on `line` was taken at the boundary after it. -/
structure Interrupted (before : Hart) (c : Context β) (line : Byte) (after : Hart × β) :
    Prop where
  /-- The instruction wrote what it wrote. -/
  registers : after.1.registers = c.registers
  /-- And asked of the bus what it asked. -/
  bus : after.2 = c.bus
  cycle : after.1.csr.cycle = c.csr.cycle + 1#64
  /-- The instruction completed. -/
  instret : after.1.csr.instret = c.csr.instret + 1#64
  mie : after.1.csr.mie = c.csr.mie
  mip : after.1.csr.mip = c.csr.mip
  mtvec : after.1.csr.mtvec = c.csr.mtvec
  mscratch : after.1.csr.mscratch = c.csr.mscratch
  /-- Interrupts were being taken when it had. -/
  taken : c.csr.mstatus.mie = true
  /-- The line is raised and let through. -/
  pending : (after.1.csr.mip &&& after.1.csr.mie).getLsbD line.toNat = true
  /-- No higher one is. -/
  highest : ∀ j, (after.1.csr.mip &&& after.1.csr.mie).getLsbD j = true → j ≤ line.toNat
  /-- The cause is an interrupt and tells which. -/
  mcause : after.1.csr.mcause.toNat = 2 ^ 31 + line.toNat
  /-- The handler returns to where the instruction was to go on. -/
  mepc : after.1.csr.mepc = c.next
  mtval : after.1.csr.mtval = 0#32
  /-- The handler runs next. -/
  pc : after.1.pc = after.1.csr.mtvec &&& ~~~3#32
  /-- Interrupts are taken again after the return. -/
  mpie : after.1.csr.mstatus.mpie = true
  /-- The handler is not interrupted. -/
  masked : after.1.csr.mstatus.mie = false
  isa : after.1.isa = before.isa

theorem toNat_interruptFlag_or {line : Byte} (hline : line.toNat < 32) :
    (Trap.interruptFlag ||| line.setWidth 32).toNat = 2 ^ 31 + line.toNat := by
  have hwide : (line.setWidth 32).toNat = line.toNat := by
    rw [BitVec.toNat_setWidth]
    omega
  rw [BitVec.toNat_or, hwide]
  exact (Nat.two_pow_add_eq_or_of_lt (i := 31) (by omega) 1).symm

/-- An interrupt that is due after an instruction is taken, with nothing of the instruction
lost. -/
theorem interrupted_complete (h : Hart) {c : Context β} {line : Byte}
    (hp : c.csr.pending? = some line) :
    h.Interrupted c line ((h.adopt c).complete c.next, c.bus) := by
  obtain ⟨htaken, hline, hpending, hhighest⟩ := CsrFile.pending?_eq_some hp
  have hdue : (h.adopt c).csr.pending? = some line := hp
  rw [complete_of_some hdue]
  exact {
    registers := rfl
    bus := rfl
    cycle := rfl
    instret := rfl
    mie := rfl
    mip := rfl
    mtvec := rfl
    mscratch := rfl
    taken := htaken
    pending := hpending
    highest := hhighest
    mcause := toNat_interruptFlag_or hline
    mepc := rfl
    mtval := rfl
    pc := rfl
    mpie := htaken
    masked := rfl
    isa := rfl }

theorem trap_complete_of_none (h : Hart) {c : Context β} (hp : c.csr.pending? = none) :
    ((h.adopt c).complete c.next).trap = .none := by
  have hdue : (h.adopt c).csr.pending? = none := hp
  rw [complete_of_none hdue]
  rfl

theorem trap_complete_of_some (h : Hart) {c : Context β} {line : Byte}
    (hp : c.csr.pending? = some line) :
    ((h.adopt c).complete c.next).trap = .interrupt line := by
  have hdue : (h.adopt c).csr.pending? = some line := hp
  rw [complete_of_some hdue]
  rfl

/-! ### Where the instruction was to go on -/

section

variable [Bus β] {h : Hart} {raw : Word} {bus : β} {c : Context β}

/-- A word completes by being decoded and performed. -/
theorem exists_of_performWord (hc : h.performWord raw bus = .completed c) :
    ∃ d, h.decode? raw = some d ∧
      perform d.operation d.instruction (Context.start h.pc h.registers h.csr bus) =
        .completed c := by
  unfold performWord at hc
  cases hd : h.decode? raw with
  | none =>
      rw [hd] at hc
      cases hc
  | some d =>
      rw [hd] at hc
      exact ⟨d, rfl, hc⟩

theorem performWord_of_decode {d : Decoded} (hd : h.decode? raw = some d)
    (hc : perform d.operation d.instruction (Context.start h.pc h.registers h.csr bus) =
      .completed c) : h.performWord raw bus = .completed c := by
  unfold performWord
  rw [hd]
  exact hc

/-- A word that the manual has an entry for goes on where the manual says, on whatever hart
it completes. -/
theorem next_of_effect (hc : h.performWord raw bus = .completed c) {result : Option Int}
    {next : Int} (he : Manual.Effect h.signed h.pc.toNat raw result next) :
    c.next = BitVec.ofInt 32 next := by
  obtain ⟨d, hd, hperformed⟩ := exists_of_performWord hc
  let full : Hart := { h with isa := Extension.full }
  have hfull : full.decode? raw = some d := Extension.decodeBy_full_of_decodeBy hd
  have hi : Extension.i ∈ Extension.full := by decide
  have hf : Extension.zifencei ∈ Extension.full := by decide
  have hcompletes : full.Completes raw bus result next bus := completes_of_effect hi hf bus he
  have hsame : full.performWord raw bus = .completed c := performWord_of_decode hfull hperformed
  have hcontext := hcompletes.symm.trans hsame
  injection hcontext with hcontext
  rw [← hcontext]

end

/-! ### Exactly when they are due -/

section

variable [Bus β] {h : Hart} {bus : β}

/-- After a step that ends in no trap, no interrupt is due. -/
theorem lines_of_trap_none (ht : (h.step bus).1.trap = .none) :
    (h.step bus).1.csr.mstatus.mie = false ∨
      (h.step bus).1.csr.mip &&& (h.step bus).1.csr.mie = 0#32 := by
  rcases step_cases h bus with ⟨c, -, hstep⟩ | ⟨e, -, hstep⟩
  · rw [hstep] at ht ⊢
    cases hp : c.csr.pending? with
    | none =>
        have hdue : (h.adopt c).csr.pending? = none := hp
        rw [complete_of_none hdue]
        exact (CsrFile.pending?_eq_none_iff c.csr).mp hp
    | some line => cases (trap_complete_of_some h hp).symm.trans ht
  · rw [hstep] at ht
    cases ht

/-- A step that ends in an interrupt completed its instruction first. -/
theorem interrupted_of_trap {line : Byte} (ht : (h.step bus).1.trap = .interrupt line) :
    ∃ c, h.performWord (Access.fetch bus h.pc).1 (Access.fetch bus h.pc).2 = .completed c ∧
      h.Interrupted c line (h.step bus) := by
  rcases step_cases h bus with ⟨c, hperformed, hstep⟩ | ⟨e, -, hstep⟩
  · refine ⟨c, hperformed, ?_⟩
    rw [hstep] at ht ⊢
    cases hp : c.csr.pending? with
    | none => cases (trap_complete_of_none h hp).symm.trans ht
    | some line' =>
        have hline : line' = line :=
          Trap.interrupt.inj ((trap_complete_of_some h hp).symm.trans ht)
        rw [← hline]
        exact interrupted_complete h hp
  · rw [hstep] at ht
    cases ht

/-- A step whose instruction completed with an interrupt due ends in an interrupt. -/
theorem trap_of_due {c : Context β}
    (hc : h.performWord (Access.fetch bus h.pc).1 (Access.fetch bus h.pc).2 = .completed c)
    (hmie : c.csr.mstatus.mie = true) (hlines : c.csr.mip &&& c.csr.mie ≠ 0#32) :
    ∃ line, (h.step bus).1.trap = .interrupt line := by
  rcases step_cases h bus with ⟨c', hperformed, hstep⟩ | ⟨e, hraised, -⟩
  · obtain rfl : c = c' := Outcome.completed.inj (hc.symm.trans hperformed)
    cases hp : c.csr.pending? with
    | none =>
        rcases (CsrFile.pending?_eq_none_iff c.csr).mp hp with hmasked | hzero
        · rw [hmie] at hmasked
          cases hmasked
        · exact absurd hzero hlines
    | some line =>
        rw [hstep]
        exact ⟨line, trap_complete_of_some h hp⟩
  · cases hc.symm.trans hraised

end

/-- **Interrupts are taken exactly when they are due.**  A step that ends in no trap leaves
none due.  One that ends in an interrupt has carried out its instruction in full, whatever
address that went on at, and took the highest line that was due.  And an instruction that
completes with one due is followed by an interrupt. -/
theorem interrupts_when_due [Bus β] (h : Hart) (bus : β) :
    ((h.step bus).1.trap = .none →
      (h.step bus).1.csr.mstatus.mie = false ∨
        (h.step bus).1.csr.mip &&& (h.step bus).1.csr.mie = 0#32) ∧
    (∀ line, (h.step bus).1.trap = .interrupt line →
      ∃ d c, h.decode? (Access.fetch bus h.pc).1 = some d ∧
        perform d.operation d.instruction
          (Context.start h.pc h.registers h.csr (Access.fetch bus h.pc).2) = .completed c ∧
        h.Interrupted c line (h.step bus) ∧
        (d.operation = .mret → (h.step bus).1.csr.mepc = h.csr.mepc) ∧
        ∀ result next,
          Manual.Effect h.signed h.pc.toNat (Access.fetch bus h.pc).1 result next →
          (h.step bus).1.csr.mepc = BitVec.ofInt 32 next) ∧
    ∀ d c, h.decode? (Access.fetch bus h.pc).1 = some d →
      perform d.operation d.instruction
        (Context.start h.pc h.registers h.csr (Access.fetch bus h.pc).2) = .completed c →
      c.csr.mstatus.mie = true → c.csr.mip &&& c.csr.mie ≠ 0#32 →
      ∃ line, (h.step bus).1.trap = .interrupt line := by
  refine ⟨lines_of_trap_none, ?_, ?_⟩
  · intro line ht
    obtain ⟨c, hc, hinterrupted⟩ := interrupted_of_trap ht
    obtain ⟨d, hd, hperformed⟩ := exists_of_performWord hc
    refine ⟨d, c, hd, hperformed, hinterrupted, ?_, ?_⟩
    · intro hmret
      rw [hmret] at hperformed
      obtain rfl := Outcome.completed.inj hperformed
      exact hinterrupted.mepc
    · intro result next he
      exact hinterrupted.mepc.trans (next_of_effect hc he)
  · intro d c hd hperformed hmie hlines
    exact trap_of_due (performWord_of_decode hd hperformed) hmie hlines

/-- Two lines are raised and let through.  `mret` has interrupts taken again and is followed by
the higher one, to come back to where it returned; a jump is followed by it at its target; and
a return that leaves interrupts off is followed by none. -/
theorem interrupts_when_due_mret :
    let lines : CsrFile :=
      { mie := 0x888#32, mip := 0x880#32, mtvec := 0x300#32, mepc := 0x1236#32 }
    let bus := (({} : WordMemory).put 0x100#32 0x30200073#32).put 0x104#32 0x0100006f#32
    let returning : Hart := { pc := 0x100#32, csr := { lines with mstatus := ⟨false, true⟩ } }
    let jumping : Hart := { pc := 0x104#32, csr := { lines with mstatus := ⟨true, false⟩ } }
    let masked : Hart := { pc := 0x100#32, csr := lines }
    ((returning.step bus).1.trap = .interrupt 11#8 ∧
      (returning.step bus).1.csr.mcause.toNat = 2 ^ 31 + 11 ∧
      (returning.step bus).1.csr.mepc = 0x1236#32 ∧ (returning.step bus).1.pc = 0x300#32) ∧
    (∃ line, (jumping.step bus).1.trap = .interrupt line ∧
      (jumping.step bus).1.csr.mepc = 0x114#32) ∧
    (masked.step bus).1.trap = .none ∧ (masked.step bus).1.csr.mstatus.mie = false := by
  intro lines bus returning jumping masked
  refine ⟨?_, ?_, ?_⟩
  · have ht : (returning.step bus).1.trap = .interrupt 11#8 := by decide +kernel
    obtain ⟨d, c, hd, -, hinterrupted, hreturn, -⟩ :=
      (interrupts_when_due returning bus).2.1 11#8 ht
    have hmret : d.operation = .mret := by
      have hdecoded : returning.decode? (Access.fetch bus returning.pc).1 =
          some ⟨.mret, Instruction.ofWord Operation.mret.format 0x30200073#32⟩ := by decide +kernel
      rw [hdecoded] at hd
      rw [← Option.some.inj hd]
    exact ⟨ht, hinterrupted.mcause, hreturn hmret, hinterrupted.pc.trans (by decide +kernel)⟩
  · have hraw : (Access.fetch bus jumping.pc).1 = 0x0100006f#32 := by decide +kernel
    have hd : jumping.decode? (Access.fetch bus jumping.pc).1 =
        some ⟨.jal, Instruction.ofWord Operation.jal.format 0x0100006f#32⟩ := by
      rw [hraw]
      decide
    obtain ⟨line, ht⟩ :=
      (interrupts_when_due jumping bus).2.2 _ _ hd rfl (by decide) (by decide)
    obtain ⟨-, -, -, -, -, -, hjump⟩ := (interrupts_when_due jumping bus).2.1 line ht
    have he : Manual.Effect jumping.signed jumping.pc.toNat (Access.fetch bus jumping.pc).1
        (some (jumping.pc.toNat + 4)) 0x114 := by
      rw [hraw]
      have hjal : Manual.Effect jumping.signed jumping.pc.toNat 0x0100006f#32 _ _ :=
        .jal (by decide)
      rwa [show jumping.pc.toNat + Manual.immJ 0x0100006f#32 = 0x114 from by decide] at hjal
    exact ⟨line, ht, hjump _ _ he⟩
  · have ht : (masked.step bus).1.trap = .none := by decide +kernel
    rcases (interrupts_when_due masked bus).1 ht with hmasked | hzero
    · exact ⟨ht, hmasked⟩
    · exact absurd hzero (by decide +kernel)

end Hart

end HomeComputer
