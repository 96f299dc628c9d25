/-
No word belongs to two instruction sets.

A hart asks its sets in turn, so in general what a word does depends on their order.  It does
not here: whatever one set claims, no other does.  Each of the smaller sets claims words of
one operation code only, so two of them cannot meet, and where the base set has words of the
same operation code it tells them apart by their function codes, or, for the words that stop
a program, by every bit.

So a word does the same on every hart that has the set it belongs to.
-/
import HomeComputer.Isa.Extension

namespace HomeComputer

namespace Extension

variable {w : Word} {op : Operation}

/-! ### The smaller sets -/

/-- The operation code that a set other than the base set keeps to. -/
def ownOpcode : Extension → BitVec 7
  | i => 0#7
  | m => 0x33#7
  | zicsr => 0x73#7
  | zifencei => 0x0f#7

theorem ownOpcode_injective {e e' : Extension} (h : e.ownOpcode = e'.ownOpcode) : e = e' := by
  revert h
  cases e <;> cases e' <;> decide

theorem opcode_of_other {e : Extension} (he : e ≠ i) (h : e.operation? w = some op) :
    w.opcode = e.ownOpcode := by
  cases e with
  | i => exact absurd rfl he
  | m | zicsr | zifencei =>
      simp only [operation?] at h
      split at h <;> simp_all [ownOpcode]

/-! ### The base set and the others -/

theorem base?_of_m (h : m.operation? w = some op) : base? w = none := by
  have ho : w.opcode = 0x33#7 := opcode_of_other (by decide) h
  have hs : w.funct7 = 1#7 := by
    by_cases hs : w.funct7 = 1#7
    · exact hs
    · simp [operation?, hs] at h
  unfold base?
  rw [ho, hs]
  rfl

theorem base?_of_zicsr (h : zicsr.operation? w = some op) : base? w = none := by
  have ho : w.opcode = 0x73#7 := opcode_of_other (by decide) h
  have hecall : w ≠ ecallWord := by
    rintro rfl
    rw [show zicsr.operation? ecallWord = none by decide] at h
    cases h
  have hebreak : w ≠ ebreakWord := by
    rintro rfl
    rw [show zicsr.operation? ebreakWord = none by decide] at h
    cases h
  unfold base?
  rw [ho]
  show (if w = ecallWord then _ else _) = _
  rw [if_neg hecall, if_neg hebreak]

theorem base?_of_zifencei (h : zifencei.operation? w = some op) : base? w = none := by
  have ho : w.opcode = 0x0f#7 := opcode_of_other (by decide) h
  have hf : w.funct3 = 1#3 := by
    by_cases hf : w.funct3 = 1#3
    · exact hf
    · simp [operation?, hf] at h
  unfold base?
  rw [ho, hf]
  rfl

/-- What another set claims the base set does not. -/
theorem base?_of_other {e : Extension} (he : e ≠ i) (h : e.operation? w = some op) :
    base? w = none := by
  cases e with
  | i => exact absurd rfl he
  | m => exact base?_of_m h
  | zicsr => exact base?_of_zicsr h
  | zifencei => exact base?_of_zifencei h

/-! ### Any two sets -/

/-- **At most one set claims a word.** -/
theorem eq_of_claims {e e' : Extension} {op' : Operation} (h : e.operation? w = some op)
    (h' : e'.operation? w = some op') : e = e' := by
  by_cases he : e = i <;> by_cases he' : e' = i
  · rw [he, he']
  · subst he
    have hbase := base?_of_other he' h'
    exact absurd (h.symm.trans hbase) (by simp)
  · subst he'
    have hbase := base?_of_other he h
    exact absurd (h'.symm.trans hbase) (by simp)
  · exact ownOpcode_injective ((opcode_of_other he h).symm.trans (opcode_of_other he' h'))

/-- A word does what the set it belongs to says, wherever that set is in the list. -/
theorem decodeBy_of_claims {isa : List Extension} {e : Extension} (he : e ∈ isa)
    (h : e.operation? w = some op) :
    decodeBy isa w = some ⟨op, Instruction.ofWord op.format w⟩ := by
  unfold decodeBy
  induction isa with
  | nil => cases he
  | cons e' rest ih =>
      rw [List.findSome?_cons]
      cases h' : e'.operation? w with
      | none =>
          have hne : e ≠ e' := by
            rintro rfl
            rw [h] at h'
            cases h'
          simp only [decode?, h', Option.map_none]
          exact ih (List.mem_of_ne_of_mem hne he)
      | some op' =>
          have hsame := eq_of_claims h h'
          subst hsame
          rw [h] at h'
          obtain rfl := Option.some.inj h'
          simp only [decode?, h, Option.map_some]

/-- What a list of sets makes of a word, one of them claims, cut by the format of the operation. -/
theorem claims_of_decodeBy {isa : List Extension} {d : Decoded} (h : decodeBy isa w = some d) :
    ∃ e ∈ isa, ∃ op, e.operation? w = some op ∧ ⟨op, Instruction.ofWord op.format w⟩ = d := by
  obtain ⟨e, he, hdecoded⟩ := List.exists_of_findSome?_eq_some h
  obtain ⟨op, hop, hd⟩ := Option.map_eq_some_iff.mp hdecoded
  exact ⟨e, he, op, hop, hd⟩

/-- What some list of sets decodes, a full hart decodes alike. -/
theorem decodeBy_full_of_decodeBy {isa : List Extension} {d : Decoded}
    (h : decodeBy isa w = some d) : decodeBy full w = some d := by
  obtain ⟨e, -, op, hop, rfl⟩ := claims_of_decodeBy h
  have he : e ∈ full := by cases e <;> decide
  exact decodeBy_of_claims he hop

end Extension

end HomeComputer
