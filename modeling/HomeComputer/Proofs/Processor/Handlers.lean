/-
A trap and its return bracket what comes between them.

Entering a trap records where to go on and whether interrupts were taken, and switches them off.
Three kinds of instructions come near that record again: one that raises an exception, the return,
and one that writes the status or the recorded address as control registers.  A step that is none
of these keeps the record (`inHandler_step`), whatever else it does, and takes no interrupt since
they are off.  So the record is still there when the handler returns, however long it ran and
whatever lines were raised meanwhile, and the return puts everything back.

The induction is on what happens after the entry.  `CsrFile.InHandler` is the record, as what a
step has to keep.
-/
import HomeComputer.Memory.WordMemory
import HomeComputer.Proofs.Isa.Table
import HomeComputer.Proofs.Processor.Interrupts

namespace HomeComputer

/-! ### The record of a trap -/

namespace Manual

/-- The word `w` writes the control register number `n`: a plain write does so always, setting
and clearing bits do unless the operand field is zero. -/
def WritesCsr (w : Word) (n : Nat) : Prop :=
  opcode w = 0x73 ∧ field w 20 12 = n ∧
    (funct3 w % 4 = 1 ∨ (funct3 w % 4 = 2 ∨ funct3 w % 4 = 3) ∧ rs1 w ≠ 0)

end Manual

namespace CsrFile

/-- A trap was taken, to come back to `epc` with interrupts as `taken` says, and was not left. -/
structure InHandler (epc : Word) (taken : Bool) (f : CsrFile) : Prop where
  mepc : f.mepc = epc
  mstatus : f.mstatus = ⟨false, taken⟩

theorem InHandler.pending? {epc : Word} {taken : Bool} {f : CsrFile} (h : InHandler epc taken f) :
    f.pending? = none :=
  (pending?_eq_none_iff f).mpr (.inl (by rw [h.mstatus]))

/-- Both files hold the same record. -/
def SameRecord (f g : CsrFile) : Prop := g.mepc = f.mepc ∧ g.mstatus = f.mstatus

theorem InHandler.of_sameRecord {epc : Word} {taken : Bool} {f g : CsrFile}
    (h : InHandler epc taken f) (hsame : SameRecord f g) : InHandler epc taken g :=
  ⟨hsame.1.trans h.mepc, hsame.2.trans h.mstatus⟩

theorem ofNumber?_eq_some {n : CsrNumber} {c : Csr} (h : Csr.ofNumber? n = some c) :
    n = c.number := by
  have hnumber := List.find?_some h
  exact (beq_iff_eq.mp hnumber).symm

/-- Writing any other register keeps the record. -/
theorem sameRecord_write? {f g : CsrFile} {n : CsrNumber} {v : Word} (h : f.write? n v = some g)
    (hstatus : n ≠ Csr.mstatus.number) (hepc : n ≠ Csr.mepc.number) : SameRecord f g := by
  unfold write? at h
  split at h
  · cases h
  · obtain ⟨c, hc, rfl⟩ := Option.map_eq_some_iff.mp h
    have hnumber := ofNumber?_eq_some hc
    cases c with
    | mstatus => exact absurd hnumber hstatus
    | mepc => exact absurd hnumber hepc
    | _ => exact ⟨rfl, rfl⟩

end CsrFile

/-! ### Operations -/

section

variable {β : Type}

namespace Execute

/-- An access to a control register that completes has written the one that its fields name, or
none. -/
theorem csr_of_completed {a : CsrAction} {immediate : Bool} {w : Word} {c c' : Context β}
    (h : csr a immediate (Instruction.ofWord .I w) c = .completed c') :
    c'.csr = c.csr ∨ (a = .write ∨ w.rs1 ≠ 0#5) ∧
      ∃ v, c.csr.write? ((w.bits 20 12).setWidth 16) v = some c'.csr := by
  simp only [csr, Instruction.ofWord] at h
  split at h
  · cases h
  · split at h
    · cases h
    · rename_i file hfile
      obtain rfl := Outcome.completed.inj h
      split at hfile
      · rename_i hwrites
        exact .inr ⟨hwrites, _, hfile⟩
      · exact .inl (Option.some.inj hfile).symm

end Execute

/-- All other operations that complete leave the control registers alone, the return excepted. -/
theorem csr_of_perform [Bus β] {op : Operation} (hreturn : op ≠ .mret)
    (haccess : ∀ a immediate, op ≠ .csr a immediate) {insn : Instruction} {c c' : Context β}
    (h : perform op insn c = .completed c') : c'.csr = c.csr := by
  cases op with
  | lui | auipc | jal | jalr | load _ | store _ | aluImm _ | alu _ | sub | mulDiv _ =>
      cases insn <;> cases h
      rfl
  | branch cond =>
      cases insn with
      | b opcode funct3 rs1 rs2 half =>
          obtain rfl := Outcome.completed.inj h
          split
          · rfl
          · rfl
      | _ => cases h
  | fence | fenceI =>
      cases h
      rfl
  | ecall | ebreak => cases h
  | mret => exact absurd rfl hreturn
  | csr a immediate => exact absurd rfl (haccess a immediate)

end

/-- The word of an operation that writes a control register is the manual's. -/
theorem Extension.writesCsr_of_operation? {e : Extension} {raw : Word} {a : CsrAction}
    {immediate : Bool} (h : e.operation? raw = some (.csr a immediate))
    (hwrites : a = .write ∨ raw.rs1 ≠ 0#5) :
    Manual.WritesCsr raw (raw.bits 20 12).toNat := by
  have hencodes := encodes_of_operation? h
  have hopcode : Manual.opcode raw = 0x73 := hencodes.manual_opcode
  have hfunct3 : Manual.funct3 raw = (CsrAction.code immediate a).toNat :=
    hencodes.manual_funct3 rfl
  refine ⟨hopcode, (Manual.toNat_bits raw 20 12).symm, ?_⟩
  rw [hfunct3]
  have hrs1 (hne : raw.rs1 ≠ 0#5) : Manual.rs1 raw ≠ 0 := fun hzero => hne (Manual.bits_eq hzero)
  cases a with
  | write => cases immediate <;> exact .inl rfl
  | set => cases immediate <;> exact .inr ⟨.inl rfl, hrs1 (hwrites.resolve_left nofun)⟩
  | clear => cases immediate <;> exact .inr ⟨.inr rfl, hrs1 (hwrites.resolve_left nofun)⟩

namespace Hart

/-! ### Steps -/

variable {β : Type} [Bus β] {h : Hart} {bus : β}

/-- The word fetched next makes the hart carry out `op`. -/
def Executes (h : Hart) (bus : β) (op : Operation) : Prop :=
  ∃ insn, h.decode? (Access.fetch bus h.pc).1 = some ⟨op, insn⟩

/-- The context in which the instruction left the hart, before a trap was entered. -/
def left (h : Hart) (bus : β) : Context β :=
  match h.performWord (Access.fetch bus h.pc).1 (Access.fetch bus h.pc).2 with
  | .completed c => c
  | .raised _ c => c

/-- The next step leaves the record of a trap alone: it raises no exception, is no return, and
writes neither `mstatus` nor `mepc`. -/
structure Quiet (h : Hart) (bus : β) : Prop where
  exception : ∀ e, (h.step bus).1.trap ≠ .exception e
  mret : ¬h.Executes bus .mret
  mstatus : ¬Manual.WritesCsr (Access.fetch bus h.pc).1 0x300
  mepc : ¬Manual.WritesCsr (Access.fetch bus h.pc).1 0x341

/-- A step that takes a trap makes the record of it. -/
theorem inHandler_of_trap (ht : (h.step bus).1.trap ≠ .none) :
    CsrFile.InHandler (h.step bus).1.csr.mepc (h.left bus).csr.mstatus.mie (h.step bus).1.csr := by
  refine ⟨rfl, ?_⟩
  unfold left
  rcases step_cases h bus with ⟨c, hperformed, hstep⟩ | ⟨e, hraised, hstep⟩
  · rw [hperformed, hstep]
    rw [hstep] at ht
    cases hp : c.csr.pending? with
    | none => exact absurd (trap_complete_of_none h hp) ht
    | some line =>
        have hdue : (h.adopt c).csr.pending? = some line := hp
        rw [complete_of_some hdue]
        rfl
  · rw [hraised, hstep]
    rfl

/-- A quiet instruction that completes has left the record as it was. -/
theorem Quiet.sameRecord (hq : h.Quiet bus) {c : Context β}
    (hc : h.performWord (Access.fetch bus h.pc).1 (Access.fetch bus h.pc).2 = .completed c) :
    CsrFile.SameRecord h.csr c.csr := by
  obtain ⟨d, hd, hperformed⟩ := exists_of_performWord hc
  obtain ⟨e, -, op, hop, rfl⟩ := Extension.claims_of_decodeBy hd
  by_cases haccess : ∃ a immediate, op = .csr a immediate
  · obtain ⟨a, immediate, rfl⟩ := haccess
    rcases Execute.csr_of_completed hperformed with hkept | ⟨hwrites, v, hwritten⟩
    · rw [hkept]
      exact ⟨rfl, rfl⟩
    · have hword := Extension.writesCsr_of_operation? hop hwrites
      -- A field of twelve bits names the same register when it is read as a wider number.
      have hnumber {n : CsrNumber}
          (hn : ((Access.fetch bus h.pc).1.bits 20 12).setWidth 16 = n) :
          ((Access.fetch bus h.pc).1.bits 20 12).toNat = n.toNat := by
        rw [← hn, BitVec.toNat_setWidth]
        omega
      refine CsrFile.sameRecord_write? hwritten (fun hstatus => ?_) (fun hepc => ?_)
      · rw [hnumber hstatus] at hword
        exact hq.mstatus hword
      · rw [hnumber hepc] at hword
        exact hq.mepc hword
  · have hreturn : op ≠ .mret := by
      rintro rfl
      exact hq.mret ⟨_, hd⟩
    rw [csr_of_perform hreturn (fun a immediate hop => haccess ⟨a, immediate, hop⟩) hperformed]
    exact ⟨rfl, rfl⟩

/-- Between a trap and its return, a quiet step ends in no trap and keeps the record. -/
theorem inHandler_step {epc : Word} {taken : Bool} (hh : h.csr.InHandler epc taken)
    (hq : h.Quiet bus) :
    (h.step bus).1.trap = .none ∧ (h.step bus).1.csr.InHandler epc taken := by
  rcases step_cases h bus with ⟨c, hperformed, hstep⟩ | ⟨e, -, hstep⟩
  · have hkept := hh.of_sameRecord (hq.sameRecord hperformed)
    have hdue : (h.adopt c).csr.pending? = none := hkept.pending?
    rw [hstep, complete_of_none hdue]
    exact ⟨rfl, hkept.mepc, hkept.mstatus⟩
  · have htrap : (h.step bus).1.trap = .exception e := by
      rw [hstep]
      rfl
    exact absurd htrap (hq.exception e)

theorem performWord_of_executes_mret (hm : h.Executes bus .mret) :
    h.performWord (Access.fetch bus h.pc).1 (Access.fetch bus h.pc).2 = .completed
      (Execute.mret (Context.start h.pc h.registers h.csr (Access.fetch bus h.pc).2)) := by
  obtain ⟨insn, hd⟩ := hm
  exact performWord_of_decode hd rfl

/-- The return goes on where the trap was recorded and takes interrupts as before it, unless one is
due there. -/
theorem step_of_mret {epc : Word} {taken : Bool} (hh : h.csr.InHandler epc taken)
    (hm : h.Executes bus .mret) :
    ((taken = false ∨ h.csr.mip &&& h.csr.mie = 0#32) →
      (h.step bus).1.trap = .none ∧ (h.step bus).1.pc = epc ∧
        (h.step bus).1.csr.mstatus = ⟨taken, true⟩) ∧
    (taken = true → h.csr.mip &&& h.csr.mie ≠ 0#32 → ∃ line,
      (h.step bus).1.trap = .interrupt line ∧
        (h.csr.mip &&& h.csr.mie).getLsbD line.toNat = true ∧
        (∀ j, (h.csr.mip &&& h.csr.mie).getLsbD j = true → j ≤ line.toNat) ∧
        (h.step bus).1.csr.mepc = epc ∧ (h.step bus).1.csr.mstatus = ⟨false, taken⟩) := by
  have hreturned := performWord_of_executes_mret hm
  rcases step_cases h bus with ⟨c, hperformed, hstep⟩ | ⟨e, hraised, -⟩
  · obtain rfl := Outcome.completed.inj (hreturned.symm.trans hperformed)
    generalize hc : Execute.mret _ = c at hstep
    have hnext : c.next = epc := by
      rw [← hc]
      exact hh.mepc
    have hmstatus : c.csr.mstatus = ⟨taken, true⟩ := by
      rw [← hc]
      exact congrArg (fun s : Status => Status.mk s.mpie true) hh.mstatus
    have hlines : c.csr.mip &&& c.csr.mie = h.csr.mip &&& h.csr.mie := by
      rw [← hc]
      rfl
    rw [hstep]
    refine ⟨fun hnone => ?_, fun htaken hsome => ?_⟩
    · have hdue : (h.adopt c).csr.pending? = none := by
        refine (CsrFile.pending?_eq_none_iff _).mpr ?_
        show c.csr.mstatus.mie = false ∨ c.csr.mip &&& c.csr.mie = 0#32
        rw [hmstatus, hlines]
        exact hnone
      rw [complete_of_none hdue]
      exact ⟨rfl, hnext, hmstatus⟩
    · cases hp : c.csr.pending? with
      | none =>
          rcases (CsrFile.pending?_eq_none_iff c.csr).mp hp with hmasked | hzero
          · rw [hmstatus, htaken] at hmasked
            cases hmasked
          · exact absurd (hlines.symm.trans hzero) hsome
      | some line =>
          obtain ⟨-, -, hpending, hhighest⟩ := CsrFile.pending?_eq_some hp
          rw [hlines] at hpending hhighest
          have hdue : (h.adopt c).csr.pending? = some line := hp
          rw [complete_of_some hdue]
          refine ⟨line, rfl, hpending, hhighest, hnext, ?_⟩
          show Status.mk false c.csr.mstatus.mie = _
          rw [hmstatus]
  · cases hreturned.symm.trans hraised

/-! ### Histories -/

/-- What happens to a hart on a bus: it runs an instruction, a line is raised or cleared, or memory
and devices change from outside. -/
inductive Event (β : Type)
  | step
  | line (number : Byte) (level : Bool)
  | outside (bus : β)

def occur (s : Hart × β) : Event β → Hart × β
  | .step => s.1.step s.2
  | .line number level => (s.1.setPending number level, s.2)
  | .outside bus => (s.1, bus)

/-- The hart and its bus after a history. -/
def occurAll (s : Hart × β) (history : List (Event β)) : Hart × β := history.foldl occur s

/-- Every step of a history is quiet. -/
def QuietAmong (s : Hart × β) : List (Event β) → Prop
  | [] => True
  | a :: history => (a = .step → s.1.Quiet s.2) ∧ QuietAmong (occur s a) history

theorem QuietAmong.of_append {s : Hart × β} {before after : List (Event β)}
    (hq : QuietAmong s (before ++ after)) :
    QuietAmong s before ∧ QuietAmong (occurAll s before) after := by
  induction before generalizing s with
  | nil => exact ⟨trivial, hq⟩
  | cons a before ih =>
      obtain ⟨hbefore, hafter⟩ := ih hq.2
      exact ⟨⟨hq.1, hbefore⟩, hafter⟩

theorem inHandler_occurAll {epc : Word} {taken : Bool} {s : Hart × β}
    (hs : s.1.csr.InHandler epc taken) {history : List (Event β)}
    (hq : QuietAmong s history) : (occurAll s history).1.csr.InHandler epc taken := by
  induction history generalizing s with
  | nil => exact hs
  | cons a history ih =>
      refine ih ?_ hq.2
      cases a with
      | step => exact (inHandler_step hs (hq.1 rfl)).2
      | line number level => exact ⟨hs.mepc, hs.mstatus⟩
      | outside bus => exact hs

/-- **A trap and its return bracket the program that was interrupted.**  A step takes a trap, which
records the address to go on at; before the trap was entered, interrupts were taken or not.  Then
anything happens, in which every step is quiet: it raises no exception, is no return and writes
neither `mstatus` nor `mepc`.  All the while that address stays recorded, `MPIE` tells whether
interrupts were taken, `MIE` is clear, and no step ends in an interrupt.  A return after it goes
on exactly at the recorded address and takes interrupts as before the trap; unless that makes one
due, which is then taken, to come back to the same address. -/
theorem trap_and_return_bracket (h : Hart) (bus : β) (ht : (h.step bus).1.trap ≠ .none)
    {history : List (Event β)} (hq : QuietAmong (h.step bus) history) :
    let epc := (h.step bus).1.csr.mepc
    let taken := (h.left bus).csr.mstatus.mie
    (∀ before after, history = before ++ after →
      let s := occurAll (h.step bus) before
      s.1.csr.mepc = epc ∧ s.1.csr.mstatus.mpie = taken ∧ s.1.csr.mstatus.mie = false ∧
        (after.head? = some .step → (s.1.step s.2).1.trap = .none)) ∧
    let s := occurAll (h.step bus) history
    let due := s.1.csr.mip &&& s.1.csr.mie
    let returned := (s.1.step s.2).1
    s.1.Executes s.2 .mret →
      ((taken = false ∨ due = 0#32) →
        returned.trap = .none ∧ returned.pc = epc ∧ returned.csr.mstatus = ⟨taken, true⟩) ∧
      (taken = true → due ≠ 0#32 → ∃ line, returned.trap = .interrupt line ∧
        due.getLsbD line.toNat = true ∧ (∀ j, due.getLsbD j = true → j ≤ line.toNat) ∧
        returned.csr.mepc = epc ∧ returned.csr.mstatus = ⟨false, taken⟩) := by
  intro epc taken
  have hentered : (h.step bus).1.csr.InHandler epc taken := inHandler_of_trap ht
  refine ⟨?_, ?_⟩
  · rintro before after rfl s
    obtain ⟨hbefore, hafter⟩ := hq.of_append
    have hkept : s.1.csr.InHandler epc taken := inHandler_occurAll hentered hbefore
    refine ⟨hkept.mepc, congrArg Status.mpie hkept.mstatus, congrArg Status.mie hkept.mstatus, ?_⟩
    intro hstep
    obtain ⟨rest, rfl⟩ := List.head?_eq_some_iff.mp hstep
    exact (inHandler_step hkept (hafter.1 rfl)).1
  · intro s due returned hm
    exact step_of_mret (inHandler_occurAll hentered hq) hm

/-- An environment call is handled by one instruction, during which a line is raised that is let
through.  Interrupts are taken again by the return, so this one is, and the call's own address,
which is no multiple of four, is recorded again. -/
theorem trap_and_return_bracket_ecall :
    let bus := ((({} : WordMemory).put 0x100#32 ecallWord).put 0x200#32 0x00150513#32).put
      0x204#32 mretWord
    let calling : Hart :=
      { pc := 0x102#32, csr := { mie := 0x800#32, mtvec := 0x200#32, mstatus := ⟨true, false⟩ } }
    let history : List (Event WordMemory) := [.line 11#8 true, .step]
    let s := occurAll (calling.step bus) history
    s.1.csr.mepc = 0x102#32 ∧ s.1.csr.mstatus.mie = false ∧
      ∃ line, (s.1.step s.2).1.trap = .interrupt line ∧ (s.1.step s.2).1.csr.mepc = 0x102#32 := by
  intro bus calling history s
  have htrap : ((occur (calling.step bus) (.line 11#8 true)).1.step
      (occur (calling.step bus) (.line 11#8 true)).2).1.trap = .none := by decide +kernel
  have hraw : (Access.fetch (occur (calling.step bus) (.line 11#8 true)).2
      (occur (calling.step bus) (.line 11#8 true)).1.pc).1 = 0x00150513#32 := by decide +kernel
  have hdecoded : (occur (calling.step bus) (.line 11#8 true)).1.decode? 0x00150513#32 =
      some ⟨.aluImm .add, Instruction.ofWord .I 0x00150513#32⟩ := by decide +kernel
  have hquiet : QuietAmong (calling.step bus) history := by
    refine ⟨nofun, fun _ => ⟨fun e he => ?_, ?_, ?_, ?_⟩, trivial⟩
    · cases htrap.symm.trans he
    · rintro ⟨insn, hd⟩
      rw [hraw, hdecoded] at hd
      cases hd
    · rw [hraw]
      exact fun hwrites => absurd hwrites.1 (by decide)
    · rw [hraw]
      exact fun hwrites => absurd hwrites.1 (by decide)
  have hepc : (calling.step bus).1.csr.mepc = 0x102#32 := by decide +kernel
  have hbracket := trap_and_return_bracket calling bus (by decide +kernel) hquiet
  obtain ⟨hmepc, -, hmasked, -⟩ := hbracket.1 history [] (List.append_nil history).symm
  have hm : s.1.Executes s.2 .mret := ⟨Instruction.ofWord .I mretWord, by decide +kernel⟩
  have hdue : s.1.csr.mip &&& s.1.csr.mie ≠ 0#32 := by decide +kernel
  have htaken : (calling.left bus).csr.mstatus.mie = true := by decide +kernel
  obtain ⟨line, hinterrupt, -, -, hagain, -⟩ := (hbracket.2 hm).2 htaken hdue
  exact ⟨hmepc.trans hepc, hmasked, line, hinterrupt, hagain.trans hepc⟩

end Hart

end HomeComputer
