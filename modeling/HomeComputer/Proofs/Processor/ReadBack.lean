/-
Control registers read back, and leave each other alone.

A number names one register or none, and what a register makes of a value is its own rule
(`Csr.legal`).  What is shown is stored once: the two names of a counter's half show the same
thing (`Csr.source`), and the halves of a counter are apart.  So a write is seen at the names of
one register, as that register's rule has it, and nowhere else; all of this is
`CsrFile.get_set`, looked up by number.

A register that is written with its own content stays as it is, unless it was given a content
that could not have been written: the handler's address and the recorded one may hold low bits
that a write drops.
-/
import HomeComputer.Proofs.Processor.ControlRegisters

namespace HomeComputer

namespace CsrFile

variable {f g : CsrFile} {n : CsrNumber} {v : Word}

/-! ### By number -/

theorem read?_number (f : CsrFile) (r : Csr) : f.read? r.number = some (f.get r) := by
  unfold read?
  rw [Csr.ofNumber?_number]
  rfl

theorem read?_eq_some_iff : f.read? n = some v ↔ ∃ r : Csr, r.number = n ∧ f.get r = v := by
  constructor
  · intro h
    obtain ⟨r, hr, hv⟩ := Option.map_eq_some_iff.mp h
    exact ⟨r, (ofNumber?_eq_some hr).symm, hv⟩
  · rintro ⟨r, rfl, rfl⟩
    exact f.read?_number r

/-- Two files that agree on the register of a number are read alike there. -/
theorem read?_congr (h : ∀ r : Csr, r.number = n → g.get r = f.get r) : g.read? n = f.read? n := by
  unfold read?
  cases hr : Csr.ofNumber? n with
  | none => rfl
  | some r => exact congrArg some (h r (ofNumber?_eq_some hr).symm)

theorem write?_eq_some_iff : f.write? n v = some g ↔
    ∃ r : Csr, r.number = n ∧ ¬Csr.isReadOnly r.number = true ∧ f.set r v = g := by
  unfold write?
  constructor
  · intro h
    split at h
    · cases h
    · obtain ⟨r, hr, hg⟩ := Option.map_eq_some_iff.mp h
      obtain rfl := ofNumber?_eq_some hr
      exact ⟨r, rfl, ‹_›, hg⟩
  · rintro ⟨r, rfl, hwritable, rfl⟩
    rw [if_neg hwritable, Csr.ofNumber?_number]
    rfl

/-- A write is accepted where there is something to be read, unless the number is one that may
only be read. -/
theorem isSome_write?_iff (f : CsrFile) (n : CsrNumber) (v : Word) :
    (f.write? n v).isSome = true ↔ (f.read? n).isSome = true ∧ n.toNat / 2 ^ 10 % 2 ^ 2 ≠ 3 := by
  rw [Option.isSome_iff_exists, Option.isSome_iff_exists]
  simp only [write?_eq_some_iff, read?_eq_some_iff, Csr.isReadOnly_iff_bits]
  constructor
  · rintro ⟨_, r, rfl, hwritable, -⟩
    exact ⟨⟨_, r, rfl, rfl⟩, hwritable⟩
  · rintro ⟨⟨_, r, rfl, -⟩, hwritable⟩
    exact ⟨_, r, rfl, hwritable, rfl⟩

/-- The file after the register of a number was to be written; if that is refused it is as it
was. -/
def written (f : CsrFile) (n : CsrNumber) (v : Word) : CsrFile := (f.write? n v).getD f

theorem written_number (f : CsrFile) {r : Csr} (hr : ¬Csr.isReadOnly r.number = true) (v : Word) :
    f.written r.number v = f.set r v := by
  unfold written
  rw [write?_eq_some_iff.mpr ⟨r, rfl, hr, rfl⟩]
  rfl

/-! ### Writing after reading -/

theorem aligned4_of_mod {w : Word} (hw : w.toNat % 4 = 0) : aligned4 w = w := by
  apply BitVec.eq_of_toNat_eq
  have hclear : (aligned4 w).toNat = w.toNat / 2 ^ 2 * 2 ^ 2 := w.toNat_clear 2
  rw [hclear]
  omega

theorem highHalf_append_lowHalf (c : BitVec 64) : highHalf c ++ lowHalf c = c := by
  have hjoined : c.extractLsb' 32 32 ++ c.extractLsb' 0 32 = c.extractLsb' 0 (32 + 32) :=
    BitVec.extractLsb'_append_extractLsb'_eq_extractLsb' rfl
  exact hjoined.trans BitVec.extractLsb'_eq_self

/-- A register that is written with what it shows stays as it is. -/
theorem set_get (f : CsrFile) (htvec : f.mtvec.toNat % 4 = 0) (hepc : f.mepc.toNat % 4 = 0)
    (r : Csr) : f.set r (f.get r) = f := by
  cases r with
  | mstatus =>
      show { f with mstatus := Status.ofWord f.mstatus.toWord } = f
      rw [Status.ofWord_toWord]
  | mtvec =>
      show { f with mtvec := aligned4 f.mtvec } = f
      rw [aligned4_of_mod htvec]
  | mepc =>
      show { f with mepc := aligned4 f.mepc } = f
      rw [aligned4_of_mod hepc]
  | mcycle | mcycleh =>
      show { f with cycle := highHalf f.cycle ++ lowHalf f.cycle } = f
      rw [highHalf_append_lowHalf]
  | minstret | minstreth =>
      show { f with instret := highHalf f.instret ++ lowHalf f.instret } = f
      rw [highHalf_append_lowHalf]
  | misa | mie | mscratch | mcause | mtval | mip | cycle | instret | cycleh | instreth
  | mhartid => rfl

/-! ### Halves -/

theorem toNat_append_halves (high low : Word) :
    (high ++ low : BitVec 64).toNat = high.toNat * 2 ^ 32 + low.toNat :=
  Word.toNat_append high low

/-- Both halves of the cycles are written, in either order. -/
theorem set_halves_cycle (f : CsrFile) (low high : Word) :
    (f.set .mcycle low).set .mcycleh high = { f with cycle := high ++ low } ∧
    (f.set .mcycleh high).set .mcycle low = { f with cycle := high ++ low } := by
  simp only [set, lowHalf_append, highHalf_append, and_self]

theorem set_halves_instret (f : CsrFile) (low high : Word) :
    (f.set .minstret low).set .minstreth high = { f with instret := high ++ low } ∧
    (f.set .minstreth high).set .minstret low = { f with instret := high ++ low } := by
  simp only [set, lowHalf_append, highHalf_append, and_self]

/-- **Control registers are independent, and hold what is legal for them.**  A write is accepted
exactly if the number can be read and is not one of those that may only be read, by its bits 11 and
10; refused, it changes nothing.  Accepted, it is read back as the register makes it legal, at its
number and at those that show the same register, and every other number is read as before.  If the
handler's address and the recorded one have their low bits clear, writing what was read changes
nothing.  The halves of a counter can be written in either order, which sets it to the two
together and leaves everything else alone. -/
theorem control_registers_independent (f : CsrFile) :
    (∀ (n : CsrNumber) (v : Word),
      ((f.write? n v).isSome = true ↔
        (f.read? n).isSome = true ∧ n.toNat / 2 ^ 10 % 2 ^ 2 ≠ 3) ∧
      (f.write? n v = none → f.written n v = f)) ∧
    (∀ (n : CsrNumber) (v : Word) (g : CsrFile), f.write? n v = some g →
      ∃ r : Csr, r.number = n ∧ g.read? n = some (r.legal v) ∧
        (∀ q : Csr, q.source = r → g.read? q.number = some (r.legal v)) ∧
        ∀ d, d ≠ n → (∀ q : Csr, q.number = d → q.source ≠ r) → g.read? d = f.read? d) ∧
    (f.mtvec.toNat % 4 = 0 → f.mepc.toNat % 4 = 0 →
      ∀ (n : CsrNumber) (v : Word), f.read? n = some v → f.written n v = f) ∧
    ∀ low high : Word, ∃ c : BitVec 64, c.toNat = high.toNat * 2 ^ 32 + low.toNat ∧
      (f.written Csr.mcycle.number low).written Csr.mcycleh.number high = { f with cycle := c } ∧
      (f.written Csr.mcycleh.number high).written Csr.mcycle.number low = { f with cycle := c } ∧
      (f.written Csr.minstret.number low).written Csr.minstreth.number high =
        { f with instret := c } ∧
      (f.written Csr.minstreth.number high).written Csr.minstret.number low =
        { f with instret := c } := by
  refine ⟨fun n v => ⟨f.isSome_write?_iff n v, fun h => ?_⟩, ?_, ?_, ?_⟩
  · unfold written
    rw [h]
    rfl
  · intro n v g hg
    obtain ⟨r, rfl, hwritable, rfl⟩ := write?_eq_some_iff.mp hg
    have hshown (q : Csr) (hq : q.source = r) :
        (f.set r v).read? q.number = some (r.legal v) := by
      rw [read?_number, f.get_set hwritable, if_pos hq]
    have hself : r.source = r := by
      cases r with
      | cycle | instret | cycleh | instreth => exact absurd rfl hwritable
      | _ => rfl
    refine ⟨r, rfl, hshown r hself, hshown, fun d _ hd => read?_congr fun q hq => ?_⟩
    rw [f.get_set hwritable, if_neg (hd q hq)]
  · intro htvec hepc n v hv
    obtain ⟨r, rfl, rfl⟩ := read?_eq_some_iff.mp hv
    unfold written
    cases hwrite : f.write? r.number (f.get r) with
    | none => rfl
    | some g =>
        obtain ⟨q, hq, -, rfl⟩ := write?_eq_some_iff.mp hwrite
        obtain rfl := Csr.number_inj hq
        exact f.set_get htvec hepc q
  · intro low high
    refine ⟨high ++ low, toNat_append_halves high low, ?_, ?_, ?_, ?_⟩
    · rw [written_number f (by decide), written_number _ (by decide)]
      exact (f.set_halves_cycle low high).1
    · rw [written_number f (by decide), written_number _ (by decide)]
      exact (f.set_halves_cycle low high).2
    · rw [written_number f (by decide), written_number _ (by decide)]
      exact (f.set_halves_instret low high).1
    · rw [written_number f (by decide), written_number _ (by decide)]
      exact (f.set_halves_instret low high).2

/-- The low half of a counter is written: its shadow shows the new value and the high half is as it
was.  The shadow itself is refused, and the handler's address takes back what it shows. -/
theorem control_registers_independent_counter :
    let f : CsrFile := { mtvec := 0x80#32, cycle := 0x100000002#64 }
    (∃ g, f.write? 0xb00#16 7#32 = some g ∧ g.read? 0xc00#16 = some 7#32 ∧
      g.read? 0xc80#16 = some 1#32) ∧
    f.write? 0xc00#16 7#32 = none ∧ f.written 0xc00#16 7#32 = f ∧
    f.mtvec.toNat % 4 = 0 ∧ f.mepc.toNat % 4 = 0 ∧ f.read? 0x305#16 = some 0x80#32 ∧
    f.written 0x305#16 0x80#32 = f := by
  intro f
  obtain ⟨haccepted, hread, hback, -⟩ := f.control_registers_independent
  have htvec : f.mtvec.toNat % 4 = 0 := by decide
  have hepc : f.mepc.toNat % 4 = 0 := by decide
  have hrefused : f.write? 0xc00#16 7#32 = none := by decide
  have hhandler : f.read? 0x305#16 = some 0x80#32 := by decide
  obtain ⟨g, hg⟩ := Option.isSome_iff_exists.mp ((haccepted 0xb00#16 7#32).1.mpr (by decide))
  obtain ⟨r, hr, -, hshown, hothers⟩ := hread _ _ _ hg
  obtain rfl : Csr.mcycle = r := Csr.number_inj hr.symm
  refine ⟨⟨g, hg, hshown .cycle rfl, ?_⟩, hrefused, (haccepted 0xc00#16 7#32).2 hrefused, htvec,
    hepc, hhandler, hback htvec hepc _ _ hhandler⟩
  rw [hothers 0xc80#16 (by decide) fun q hq => ?_]
  · decide
  · obtain rfl : Csr.cycleh = q := Csr.number_inj hq.symm
    decide

end CsrFile

end HomeComputer
