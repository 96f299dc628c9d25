/-
Counters count.

There are two: the cycles count every step, and the completed instructions those that end in no
exception, so a step that ends in an interrupt counts for both.  The instruction comes first and the
counting after it.  What an instruction reads of a counter is therefore the count of the steps
before it, and what it writes to a half is counted on from at once, with a carry from the low half
into the high one.

One step adds to a counter what its trap says to whatever the instruction left in it
(`Hart.counter_step`), and the induction over a history adds these up.  An instruction leaves a
counter alone unless it writes one of its halves.
-/
import HomeComputer.Memory.WordMemory
import HomeComputer.Proofs.Processor.CsrWrites
import HomeComputer.Proofs.Processor.ReadBack

namespace HomeComputer

/-- What the hart counts: cycles, and instructions completed. -/
inductive Counter
  | cycle
  | instret
  deriving DecidableEq

namespace Counter

/-- The register by which the low half is written. -/
def low : Counter → Csr
  | cycle => .mcycle
  | instret => .minstret

/-- The register by which the high half is written. -/
def high : Counter → Csr
  | cycle => .mcycleh
  | instret => .minstreth

/-- The counter counts a step that ends so. -/
def counts : Counter → Trap → Bool
  | instret, .exception _ => false
  | _, _ => true

end Counter

/-! ### Halves -/

namespace CsrFile

def counter (f : CsrFile) : Counter → BitVec 64
  | .cycle => f.cycle
  | .instret => f.instret

theorem toNat_lowHalf (c : BitVec 64) : (lowHalf c).toNat = c.toNat % 2 ^ 32 := by
  unfold lowHalf
  rw [BitVec.extractLsb'_toNat]
  rfl

theorem toNat_highHalf (c : BitVec 64) : (highHalf c).toNat = c.toNat / 2 ^ 32 := by
  have hc := c.isLt
  unfold highHalf
  rw [BitVec.extractLsb'_toNat, Nat.shiftRight_eq_div_pow]
  omega

/-- A register that shows a half of a counter shows the count's. -/
theorem toNat_get_of_source (f : CsrFile) {c : Counter} {r : Csr} :
    (r.source = c.low → (f.get r).toNat = (f.counter c).toNat % 2 ^ 32) ∧
    (r.source = c.high → (f.get r).toNat = (f.counter c).toNat / 2 ^ 32) := by
  refine ⟨fun hr => ?_, fun hr => ?_⟩
  · rw [← toNat_lowHalf]
    cases c <;> cases r <;> first | rfl | cases hr
  · rw [← toNat_highHalf]
    cases c <;> cases r <;> first | rfl | cases hr

/-- A write to a half puts it beside the other one. -/
theorem toNat_counter_set (f : CsrFile) (c : Counter) (v : Word) :
    ((f.set c.low v).counter c).toNat = (f.counter c).toNat / 2 ^ 32 * 2 ^ 32 + v.toNat ∧
    ((f.set c.high v).counter c).toNat = v.toNat * 2 ^ 32 + (f.counter c).toNat % 2 ^ 32 := by
  rw [← toNat_lowHalf, ← toNat_highHalf, ← toNat_append_halves, ← toNat_append_halves]
  cases c with
  | cycle => exact ⟨rfl, rfl⟩
  | instret => exact ⟨rfl, rfl⟩

/-- A write elsewhere leaves a counter alone. -/
theorem counter_set_of_ne (f : CsrFile) {c : Counter} {r : Csr} (hlow : r ≠ c.low)
    (hhigh : r ≠ c.high) (v : Word) : (f.set r v).counter c = f.counter c := by
  cases c with
  | cycle =>
      cases r with
      | mcycle => exact absurd rfl hlow
      | mcycleh => exact absurd rfl hhigh
      | _ => rfl
  | instret =>
      cases r with
      | minstret => exact absurd rfl hlow
      | minstreth => exact absurd rfl hhigh
      | _ => rfl

end CsrFile

/-! ### Steps -/

namespace Hart

variable {β : Type} [Bus β] {h : Hart} {bus : β} {c : Counter}

/-- The next step writes neither half of the counter. -/
def LeavesCounter (c : Counter) (h : Hart) (bus : β) : Prop :=
  ∀ v, ¬h.WritesCsr bus c.low v ∧ ¬h.WritesCsr bus c.high v

/-- A word that names the register of neither half leaves the counter alone. -/
theorem leavesCounter_of_fields
    (hfields : Manual.opcode (Access.fetch bus h.pc).1 = 0x73 →
      Manual.field (Access.fetch bus h.pc).1 20 12 ≠ c.low.number.toNat ∧
      Manual.field (Access.fetch bus h.pc).1 20 12 ≠ c.high.number.toNat) :
    LeavesCounter c h bus := fun _ =>
  ⟨fun hw => (hfields hw.fields.1).1 hw.fields.2, fun hw => (hfields hw.fields.1).2 hw.fields.2⟩

theorem counter_left (hc : LeavesCounter c h bus) :
    (h.left bus).csr.counter c = h.csr.counter c := by
  rcases h.left_cases bus with hkept | ⟨-, hleft⟩ | ⟨r, v, hw, hleft⟩
  · rw [hkept]
  · rw [hleft]
    cases c <;> rfl
  · rw [hleft]
    refine h.csr.counter_set_of_ne ?_ ?_ v
    · rintro rfl
      exact (hc v).1 hw
    · rintro rfl
      exact (hc v).2 hw

/-- A step counts on from what its instruction left. -/
theorem counter_step (h : Hart) (bus : β) (c : Counter) :
    (h.step bus).1.csr.counter c =
      (h.left bus).csr.counter c + if c.counts (h.step bus).1.trap then 1#64 else 0#64 := by
  rcases h.csr_step_cases bus with ⟨htrap, hcsr⟩ | ⟨line, htrap, -, hcsr⟩ | ⟨e, htrap, hleft, hcsr⟩
  · rw [htrap, hcsr]
    cases c <;> rfl
  · rw [htrap, hcsr]
    cases c <;> rfl
  · rw [htrap, hcsr, hleft]
    cases c with
    | cycle => rfl
    | instret => exact (BitVec.add_zero _).symm

theorem toNat_counter_step (h : Hart) (bus : β) (c : Counter) :
    ((h.step bus).1.csr.counter c).toNat =
      (((h.left bus).csr.counter c).toNat +
        if c.counts (h.step bus).1.trap then 1 else 0) % 2 ^ 64 := by
  rw [counter_step, BitVec.toNat_add]
  split <;> rfl

/-- Every counter counts a step that ends in no exception. -/
theorem counts_of_ne_exception {t : Trap} (ht : ∀ e, t ≠ .exception e) : c.counts t = true := by
  cases t with
  | exception e => exact absurd rfl (ht e)
  | none => cases c <;> rfl
  | interrupt line => cases c <;> rfl

/-- A step that writes a register counts, on from what it wrote. -/
theorem toNat_counter_of_writesCsr {r : Csr} {v : Word} (hw : h.WritesCsr bus r v) (c : Counter) :
    ((h.step bus).1.csr.counter c).toNat = (((h.csr.set r v).counter c).toNat + 1) % 2 ^ 64 := by
  obtain ⟨hcompleted, hleft⟩ := hw.completes
  have hcounts : c.counts (h.step bus).1.trap = true :=
    counts_of_ne_exception (trap_ne_exception_of_completed hcompleted)
  rw [toNat_counter_step, hleft, if_pos hcounts]

/-! ### Histories -/

/-- What the steps of a history end in, one after the other. -/
def endings (s : Hart × β) : List (Event β) → List Trap
  | [] => []
  | .step :: history => (s.1.step s.2).1.trap :: endings (s.1.step s.2) history
  | a :: history => endings (occur s a) history

theorem length_endings_replicate (s : Hart × β) (n : Nat) :
    (endings s (List.replicate n .step)).length = n := by
  induction n generalizing s with
  | zero => rfl
  | succ n ih => exact congrArg (· + 1) (ih (s.1.step s.2))

/-- A counter that is left alone grows by the steps that it counts. -/
theorem toNat_counter_occurAll {s : Hart × β} {history : List (Event β)}
    (hc : EachStep (LeavesCounter c) s history) :
    ((occurAll s history).1.csr.counter c).toNat =
      ((s.1.csr.counter c).toNat + (endings s history).countP c.counts) % 2 ^ 64 := by
  induction history generalizing s with
  | nil => exact (Nat.mod_eq_of_lt (s.1.csr.counter c).isLt).symm
  | cons a history ih =>
      have hrest := ih hc.2
      cases a with
      | step =>
          have hone := toNat_counter_step s.1 s.2 c
          rw [counter_left (hc.1 rfl)] at hone
          have hcons : (endings s (.step :: history)).countP c.counts =
              (endings (s.1.step s.2) history).countP c.counts +
                if c.counts (s.1.step s.2).1.trap then 1 else 0 := List.countP_cons
          refine hrest.trans ?_
          show (((s.1.step s.2).1.csr.counter c).toNat + _) % _ = _
          rw [hone, hcons, Nat.mod_add_mod, Nat.add_assoc, Nat.add_comm (ite _ _ _)]
          rfl
      | line number level =>
          refine hrest.trans ?_
          cases c <;> rfl
      | outside bus => exact hrest

/-- **Counters count.**  Over any history in which no step writes a half of it, a counter grows by
the number of steps that it counts, whatever they do and whatever lines are raised between them:
the cycles by all of them, the completed instructions by those that did not end in an exception.
An instruction that accesses a register which shows a half, and is not refused, hands over that
half of the count before its own step.  One that writes a half puts it beside the other, and its
step is counted on top of that.  All of this is modulo `2 ^ 64`. -/
theorem counters_count :
    (∀ (c : Counter) (s : Hart × β) (history : List (Event β)),
      EachStep (LeavesCounter c) s history →
      ((occurAll s history).1.csr.counter c).toNat =
        ((s.1.csr.counter c).toNat + (endings s history).countP c.counts) % 2 ^ 64) ∧
    (∀ (s : Hart × β) (n : Nat),
      (endings s (List.replicate n .step)).countP Counter.cycle.counts = n) ∧
    (∀ (h : Hart) (bus : β) (a : CsrAction) (immediate : Bool) (r : Csr),
      let raw := (Access.fetch bus h.pc).1
      let after := (h.step bus).1
      h.Executes bus (.csr a immediate) → Manual.field raw 20 12 = r.number.toNat →
      ¬(a.Writes (Manual.rs1 raw) ∧ Csr.isReadOnly r.number = true) →
      (∀ e, after.trap ≠ .exception e) ∧
      ∀ (c : Counter) (q : Reg), q.toNat = Manual.rd raw → q ≠ 0#5 →
        (r.source = c.low →
          (after.registers.get q).toNat = (h.csr.counter c).toNat % 2 ^ 32) ∧
        (r.source = c.high →
          (after.registers.get q).toNat = (h.csr.counter c).toNat / 2 ^ 32)) ∧
    ∀ (h : Hart) (bus : β) (c : Counter) (v : Word),
      let before := (h.csr.counter c).toNat
      let after := ((h.step bus).1.csr.counter c).toNat
      (h.WritesCsr bus c.low v → after = (before / 2 ^ 32 * 2 ^ 32 + v.toNat + 1) % 2 ^ 64) ∧
      (h.WritesCsr bus c.high v → after = (v.toNat * 2 ^ 32 + before % 2 ^ 32 + 1) % 2 ^ 64) := by
  refine ⟨fun c s history => toNat_counter_occurAll, fun s n => ?_, ?_, ?_⟩
  · have hall : Counter.cycle.counts = fun _ => true := rfl
    rw [hall, List.countP_true, length_endings_replicate]
  · intro h bus a immediate r raw after hx hnumber hlegal
    obtain ⟨hnone, hread⟩ := step_of_executes_csr hx hnumber hlegal
    refine ⟨hnone, fun c q hq hzero => ?_⟩
    rw [hread q hq hzero]
    exact h.csr.toNat_get_of_source
  · intro h bus c v before after
    obtain ⟨hlow, hhigh⟩ := h.csr.toNat_counter_set c v
    refine ⟨fun hw => ?_, fun hw => ?_⟩
    · rw [← hlow]
      exact toNat_counter_of_writesCsr hw c
    · rw [← hhigh]
      exact toNat_counter_of_writesCsr hw c

/-- A call, and in its handler an addition, a read of the low half of the cycles and a write to
it. -/
def countedProgram : WordMemory :=
  (((({} : WordMemory).put 0x100#32 ecallWord).put 0x200#32 0x00150513#32).put 0x204#32
    0xb00022f3#32).put 0x208#32 0xb0031073#32

/-- The hart at the call, two cycles before they wrap round. -/
def countedHart : Hart where
  pc := 0x100#32
  registers := Registers.zero.set 6#5 0xffffffff#32
  csr := { mtvec := 0x200#32, cycle := 0xfffffffffffffffe#64, instret := 5#64 }

/-- At the read. -/
def countedTwice : Hart × WordMemory :=
  occurAll (countedHart, countedProgram) (List.replicate 2 .step)

/-- At the write. -/
def countedRead : Hart × WordMemory := countedTwice.1.step countedTwice.2

/-- After the call and the addition the cycles begin at zero again and one instruction has
completed.  The read shows the zero, and the write carries into the high half. -/
theorem counters_count_wrapping :
    countedTwice.1.csr.cycle.toNat = 0 ∧ countedTwice.1.csr.instret.toNat = 6 ∧
    (countedRead.1.registers.get 5#5).toNat = 0 ∧
    (countedRead.1.step countedRead.2).1.csr.cycle.toNat = 2 ^ 32 := by
  have hcall : (Access.fetch countedProgram countedHart.pc).1 = ecallWord := by decide +kernel
  have hadd : (Access.fetch (countedHart.step countedProgram).2
      (countedHart.step countedProgram).1.pc).1 = 0x00150513#32 := by decide +kernel
  have hquiet (c : Counter) : EachStep (LeavesCounter c) (countedHart, countedProgram)
      (List.replicate 2 .step) := by
    have hfirst : LeavesCounter c countedHart countedProgram :=
      leavesCounter_of_fields (by rw [hcall]; cases c <;> decide)
    have hsecond : LeavesCounter c (countedHart.step countedProgram).1
        (countedHart.step countedProgram).2 :=
      leavesCounter_of_fields (by rw [hadd]; cases c <;> decide)
    exact ⟨fun _ => hfirst, fun _ => hsecond, trivial⟩
  have hcycle := counters_count.1 .cycle _ _ (hquiet .cycle)
  have hinstret := counters_count.1 .instret _ _ (hquiet .instret)
  have hread : (Access.fetch countedTwice.2 countedTwice.1.pc).1 = 0xb00022f3#32 := by
    decide +kernel
  obtain ⟨-, hshown⟩ := counters_count.2.2.1 countedTwice.1 countedTwice.2 .set false .mcycle
    ⟨Instruction.ofWord .I 0xb00022f3#32, by decide +kernel⟩ (by rw [hread]; decide)
    (by rw [hread]; decide)
  have hwrites : countedRead.1.WritesCsr countedRead.2 Counter.cycle.low 0xffffffff#32 :=
    ⟨.write, false, ⟨Instruction.ofWord .I 0xb0031073#32, by decide +kernel⟩, by decide +kernel,
      by decide +kernel, by decide, by decide +kernel⟩
  have hwritten := (counters_count.2.2.2 _ _ _ _).1 hwrites
  refine ⟨hcycle.trans (by decide +kernel), hinstret.trans (by decide +kernel), ?_, ?_⟩
  · exact ((hshown .cycle 5#5 (by rw [hread]; decide) (by decide)).1 rfl).trans (by decide +kernel)
  · exact hwritten.trans (by decide +kernel)

end Hart

end HomeComputer
