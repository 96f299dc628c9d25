/-
Interrupts that are off stay off.

There are two ways back to interrupts: the return from a trap, if `MPIE` says so, and an instruction
that writes the status with `MIE` set.  A step that is neither (`Hart.Unmasks`) leaves `MIE` clear,
whatever else it does and whichever lines are raised, and ends in no interrupt.  The induction is
on the history, and `MIE` being clear is all that carries it: a trap only ever clears it.

What a trap puts into `MPIE` is that same bit.  So a second trap, entered while `MIE` is clear,
makes both bits clear, and then the return is not a way back either.
-/
import HomeComputer.Memory.WordMemory
import HomeComputer.Proofs.Processor.CsrWrites

namespace HomeComputer

namespace Hart

variable {β : Type} [Bus β] {h : Hart} {bus : β}

/-- The next step may have interrupts taken again: it executes the return while `MPIE` is set, or
writes the status with `MIE`, which is bit 3, set. -/
def Unmasks (h : Hart) (bus : β) : Prop :=
  (h.Executes bus .mret ∧ h.csr.mstatus.mpie = true) ∨
    ∃ v, h.WritesCsr bus .mstatus v ∧ v.getLsbD 3 = true

/-- The next step neither returns nor writes the status. -/
def LeavesStatus (h : Hart) (bus : β) : Prop :=
  ¬h.Executes bus .mret ∧ ∀ v, ¬h.WritesCsr bus .mstatus v

/-! ### Steps -/

/-- An instruction that is no way back leaves `MIE` clear. -/
theorem masked_left (hoff : h.csr.mstatus.mie = false) (hu : ¬h.Unmasks bus) :
    (h.left bus).csr.mstatus.mie = false := by
  rcases h.left_cases bus with hkept | ⟨hreturn, hleft⟩ | ⟨r, v, hw, hleft⟩
  · rw [hkept]
    exact hoff
  · rw [hleft]
    exact Bool.eq_false_iff.mpr fun hmpie => hu (.inl ⟨hreturn, hmpie⟩)
  · rw [hleft]
    cases r with
    | mstatus => exact Bool.eq_false_iff.mpr fun hbit => hu (.inr ⟨v, hw, hbit⟩)
    | _ => exact hoff

/-- A step that is no way back leaves interrupts off, and ends in none. -/
theorem masked_step (hoff : h.csr.mstatus.mie = false) (hu : ¬h.Unmasks bus) :
    (h.step bus).1.csr.mstatus.mie = false ∧ ∀ line, (h.step bus).1.trap ≠ .interrupt line := by
  have hleft := masked_left hoff hu
  rcases h.csr_step_cases bus with ⟨htrap, hcsr⟩ | ⟨line, -, hdue, -⟩ | ⟨e, htrap, -, hcsr⟩
  · rw [hcsr, htrap]
    exact ⟨hleft, nofun⟩
  · have hnone := (CsrFile.pending?_eq_none_iff _).mpr (.inl hleft)
    cases hdue.symm.trans hnone
  · rw [hcsr, htrap]
    exact ⟨rfl, nofun⟩

/-- A step that ends in an exception has recorded whether interrupts were taken, and they are
off. -/
theorem mstatus_of_exception {e : Exception} (ht : (h.step bus).1.trap = .exception e) :
    (h.step bus).1.csr.mstatus = ⟨false, h.csr.mstatus.mie⟩ := by
  rcases h.csr_step_cases bus with ⟨htrap, -⟩ | ⟨line, htrap, -⟩ | ⟨e', -, -, hcsr⟩
  · cases htrap.symm.trans ht
  · cases htrap.symm.trans ht
  · rw [hcsr]
    rfl

/-- An instruction that neither returns nor writes the status leaves it as it was. -/
theorem mstatus_left (hk : h.LeavesStatus bus) : (h.left bus).csr.mstatus = h.csr.mstatus := by
  rcases h.left_cases bus with hkept | ⟨hreturn, -⟩ | ⟨r, v, hw, hleft⟩
  · rw [hkept]
  · exact absurd hreturn hk.1
  · rw [hleft]
    cases r with
    | mstatus => exact absurd hw (hk.2 v)
    | _ => rfl

/-- In a trap within a trap a step that leaves the status alone keeps both bits clear. -/
theorem nested_step (hs : h.csr.mstatus = ⟨false, false⟩) (hk : h.LeavesStatus bus) :
    (h.step bus).1.csr.mstatus = ⟨false, false⟩ := by
  have hleft : (h.left bus).csr.mstatus = ⟨false, false⟩ := (mstatus_left hk).trans hs
  rcases h.csr_step_cases bus with ⟨-, hcsr⟩ | ⟨line, -, hdue, -⟩ | ⟨e, htrap, -, -⟩
  · rw [hcsr]
    exact hleft
  · have hnone := (CsrFile.pending?_eq_none_iff (h.left bus).csr).mpr (.inl (by rw [hleft]))
    cases hdue.symm.trans hnone
  · rw [mstatus_of_exception htrap, hs]

/-! ### Histories -/

theorem masked_occurAll {s : Hart × β} (hoff : s.1.csr.mstatus.mie = false)
    {history : List (Event β)} (hu : EachStep (fun h bus => ¬h.Unmasks bus) s history) :
    (occurAll s history).1.csr.mstatus.mie = false :=
  hu.invariant hoff (fun _ _ hh hp => (masked_step hh hp).1) fun _ _ _ hh => hh

theorem nested_occurAll {s : Hart × β} (hs : s.1.csr.mstatus = ⟨false, false⟩)
    {history : List (Event β)} (hk : EachStep LeavesStatus s history) :
    (occurAll s history).1.csr.mstatus = ⟨false, false⟩ :=
  hk.invariant hs (fun _ _ hh hp => nested_step hh hp) fun _ _ _ hh => hh

/-- **Interrupts that are off stay off.**  While `MIE` is clear, in any history in which no step
executes the return while `MPIE` is set, and none writes the status with `MIE` set, `MIE` stays
clear and no step ends in an interrupt, whatever the steps do and whichever lines are raised.

After an exception within the handler of an exception, with no way back between the two and the
status left alone since, the return leaves interrupts off too. -/
theorem interrupts_stay_off :
    (∀ (s : Hart × β) (history : List (Event β)), s.1.csr.mstatus.mie = false →
      EachStep (fun h bus => ¬h.Unmasks bus) s history →
      ∀ before after, history = before ++ after →
        let t := occurAll s before
        t.1.csr.mstatus.mie = false ∧
          (after.head? = some .step → ∀ line, (t.1.step t.2).1.trap ≠ .interrupt line)) ∧
    ∀ (h : Hart) (bus : β) (first second : Exception) (between since : List (Event β)),
      (h.step bus).1.trap = .exception first →
      EachStep (fun h bus => ¬h.Unmasks bus) (h.step bus) between →
      let s := occurAll (h.step bus) between
      (s.1.step s.2).1.trap = .exception second →
      EachStep LeavesStatus (s.1.step s.2) since →
      let t := occurAll (s.1.step s.2) since
      t.1.Executes t.2 .mret →
      let returned := (t.1.step t.2).1
      returned.trap = .none ∧ returned.csr.mstatus.mie = false := by
  refine ⟨?_, ?_⟩
  · rintro s history hoff hu before after rfl t
    obtain ⟨hbefore, hafter⟩ := hu.of_append
    have ht : t.1.csr.mstatus.mie = false := masked_occurAll hoff hbefore
    refine ⟨ht, fun hstep => ?_⟩
    obtain ⟨rest, rfl⟩ := List.head?_eq_some_iff.mp hstep
    exact (masked_step ht (hafter.1 rfl)).2
  · intro h bus first second between since hfirst hbetween s hsecond hsince t hreturn returned
    have hs : s.1.csr.mstatus.mie = false :=
      masked_occurAll (congrArg Status.mie (mstatus_of_exception hfirst)) hbetween
    have hnested : (s.1.step s.2).1.csr.mstatus = ⟨false, false⟩ := by
      rw [mstatus_of_exception hsecond, hs]
    have ht : t.1.csr.InHandler t.1.csr.mepc false := ⟨rfl, nested_occurAll hnested hsince⟩
    obtain ⟨htrap, -, hmstatus⟩ := (step_of_mret ht hreturn).1 (.inl rfl)
    exact ⟨htrap, congrArg Status.mie hmstatus⟩

/-- A call, a handler that moves the handler's address before it stops at a breakpoint, and another
handler, which returns. -/
def nestedProgram : WordMemory :=
  ((((({} : WordMemory).put 0x100#32 ecallWord).put 0x200#32 0x30529073#32).put 0x204#32
    ebreakWord).put 0x300#32 0x00150513#32).put 0x304#32 mretWord

/-- The hart at the call, with a line let through and interrupts on. -/
def nestedCaller : Hart where
  pc := 0x100#32
  registers := Registers.zero.set 5#5 0x300#32
  csr := { mie := 0x800#32, mtvec := 0x200#32, mstatus := ⟨true, false⟩ }

/-- In the first handler, once the line is raised. -/
def nestedRaised : Hart × WordMemory :=
  occurAll (nestedCaller.step nestedProgram) [.line 11#8 true]

/-- At the breakpoint. -/
def nestedBreak : Hart × WordMemory :=
  occurAll (nestedCaller.step nestedProgram) [.line 11#8 true, .step]

/-- At the return from the second handler. -/
def nestedReturn : Hart × WordMemory := occurAll (nestedBreak.1.step nestedBreak.2) [.step]

/-- The line is waiting from the first handler on, and the return from the second goes back to it
with interrupts off. -/
theorem interrupts_stay_off_nested :
    (nestedCaller.step nestedProgram).1.trap = .exception .environmentCall ∧
    (nestedRaised.1.step nestedRaised.2).1.trap ≠ .interrupt 11#8 ∧
    (nestedBreak.1.step nestedBreak.2).1.trap = .exception .breakpoint ∧
    nestedReturn.1.csr.mip &&& nestedReturn.1.csr.mie = 0x800#32 ∧
    (nestedReturn.1.step nestedReturn.2).1.trap = .none ∧
    (nestedReturn.1.step nestedReturn.2).1.csr.mstatus.mie = false := by
  have hraw : (Access.fetch nestedRaised.2 nestedRaised.1.pc).1 = 0x30529073#32 := by
    decide +kernel
  have hdecoded : nestedRaised.1.decode? 0x30529073#32 =
      some ⟨.csr .write false, Instruction.ofWord .I 0x30529073#32⟩ := by decide +kernel
  have hmasked : ¬nestedRaised.1.Unmasks nestedRaised.2 := by
    rintro (⟨⟨insn, hd⟩, -⟩ | ⟨v, hw, -⟩)
    · rw [hraw, hdecoded] at hd
      cases hd
    · have hnumber := hw.fields.2
      rw [hraw] at hnumber
      exact absurd hnumber (by decide)
  have hbetween : EachStep (fun h bus => ¬h.Unmasks bus) (nestedCaller.step nestedProgram)
      [.line 11#8 true, .step] := ⟨nofun, fun _ => hmasked, trivial⟩
  have hraw' : (Access.fetch (nestedBreak.1.step nestedBreak.2).2
      (nestedBreak.1.step nestedBreak.2).1.pc).1 = 0x00150513#32 := by decide +kernel
  have hdecoded' : (nestedBreak.1.step nestedBreak.2).1.decode? 0x00150513#32 =
      some ⟨.aluImm .add, Instruction.ofWord .I 0x00150513#32⟩ := by decide +kernel
  have hsince : EachStep LeavesStatus (nestedBreak.1.step nestedBreak.2) [.step] := by
    refine ⟨fun _ => ⟨?_, fun v hw => ?_⟩, trivial⟩
    · rintro ⟨insn, hd⟩
      rw [hraw', hdecoded'] at hd
      cases hd
    · have hopcode := hw.fields.1
      rw [hraw'] at hopcode
      exact absurd hopcode (by decide)
  have hcalled : (nestedCaller.step nestedProgram).1.trap = .exception .environmentCall := by
    decide +kernel
  have hbroken : (nestedBreak.1.step nestedBreak.2).1.trap = .exception .breakpoint := by
    decide +kernel
  have hreturn : nestedReturn.1.Executes nestedReturn.2 .mret :=
    ⟨Instruction.ofWord .I mretWord, by decide +kernel⟩
  obtain ⟨-, hnone⟩ := interrupts_stay_off.1 (nestedCaller.step nestedProgram) _
    (by decide +kernel) hbetween [.line 11#8 true] [.step] rfl
  obtain ⟨htrap, hoff⟩ := interrupts_stay_off.2 nestedCaller nestedProgram .environmentCall
    .breakpoint [.line 11#8 true, .step] [.step] hcalled hbetween hbroken hsince hreturn
  exact ⟨hcalled, hnone rfl 11#8, hbroken, by decide +kernel, htrap, hoff⟩

end Hart

end HomeComputer
