/-
Assembly text tells words apart.

Two words with the same text name the same operation and show the same operands, since a line can
be taken to pieces.  What is not shown are the codes of the words, and the operation determines
them; so the words are the same (`eq_of_operands`).  An amount to shift by is shown without the
upper bits of the immediate it is part of, but these are a code as well, and a target is shown
instead of a distance, but it is the distance from one address.

Only the two kinds of fence show less than they are made of, and they do not look at the rest.  A
hart that does not know them records all of the word, though, as it does with any other.
-/
import HomeComputer.Proofs.Assembly.Lines
import HomeComputer.Proofs.Isa.Decoding
import HomeComputer.Proofs.Isa.Fields

namespace HomeComputer

/-! ### Operands of words -/

/-- Words that do the same show operands of the same kinds. -/
theorem Decoded.alike_operands (pc w w' : Word) (op : Operation) :
    List.Forall₂ Operand.Alike
      (operands pc ⟨op, Instruction.ofWord op.format w⟩)
      (operands pc ⟨op, Instruction.ofWord op.format w'⟩) := by
  cases op with
  | aluImm o =>
      refine .cons (.register _ _) (.cons (.register _ _) (.cons ?_ .nil))
      cases o.isShift with
      | true => exact .small _ _
      | false => exact .signed _ _
  | csr a immediate =>
      refine .cons (.register _ _) (.cons (.control _ _) (.cons ?_ .nil))
      cases immediate with
      | true => exact .small _ _
      | false => exact .register _ _
  | _ => repeat constructor

/-! ### Fields behind operands -/

/-- The immediate of a shift is a code and the amount. -/
theorem shift_immediate_eq {w w' : Word} (hcode : w.funct7 = w'.funct7)
    (hamount : (w.bits 20 12).setWidth 5 = (w'.bits 20 12).setWidth 5) :
    w.bits 20 12 = w'.bits 20 12 := by
  have hparts (w : Word) : w.bits 20 12 = w.funct7 ++ w.bits 20 5 :=
    (w.bits_append_bits (show 25 = 20 + 5 from rfl)).symm
  rw [hparts w, hparts w', BitVec.setWidth_append_eq_right, BitVec.setWidth_append_eq_right]
    at hamount
  rw [hparts w, hparts w', hcode, hamount]

/-- Twelve bits are read back from the number of a control register. -/
theorem controlNumber_inj {imm imm' : BitVec 12}
    (h : (imm.setWidth 16 : CsrNumber) = imm'.setWidth 16) : imm = imm' := by
  have hlow := congrArg (BitVec.setWidth 12) h
  rwa [BitVec.setWidth_setWidth_of_le imm (by decide), BitVec.setWidth_eq,
    BitVec.setWidth_setWidth_of_le imm' (by decide), BitVec.setWidth_eq] at hlow

/-- The immediate of arithmetic is read back from what is shown of it. -/
theorem immediate_inj {o : Alu} {w w' : Word} (he : (Operation.aluImm o).Encodes w)
    (he' : (Operation.aluImm o).Encodes w')
    (h : (if o.isShift then .small ((w.bits 20 12).setWidth 5) else .signed (w.bits 20 12)) =
      (if o.isShift then Operand.small ((w'.bits 20 12).setWidth 5)
        else .signed (w'.bits 20 12))) : w.bits 20 12 = w'.bits 20 12 := by
  cases ho : o.isShift with
  | false =>
      rw [ho] at h
      exact Operand.signed.inj h
  | true =>
      rw [ho] at h
      obtain ⟨g, hg⟩ : ∃ g, (Operation.aluImm o).funct7? = some g := by
        cases o <;> first | exact ⟨_, rfl⟩ | cases ho
      exact shift_immediate_eq (he.funct7_eq he' hg) (Operand.small.inj h)

/-! ### Words behind fields -/

theorem eq_of_registers {w w' : Word} (hopcode : w.opcode = w'.opcode)
    (hfunct3 : w.funct3 = w'.funct3) (hfunct7 : w.funct7 = w'.funct7)
    (h : [Operand.register w.rd, .register w.rs1, .register w.rs2] =
      [.register w'.rd, .register w'.rs1, .register w'.rs2]) : w = w' := by
  obtain ⟨hrd, hrs1, hrs2⟩ : w.rd = w'.rd ∧ w.rs1 = w'.rs1 ∧ w.rs2 = w'.rs2 := by simpa using h
  apply Instruction.ofWord_inj (f := .R)
  simp only [Instruction.ofWord, hopcode, hfunct3, hfunct7, hrd, hrs1, hrs2]

theorem eq_of_immediate {w w' : Word} (hopcode : w.opcode = w'.opcode)
    (hfunct3 : w.funct3 = w'.funct3) (hrd : w.rd = w'.rd) (hrs1 : w.rs1 = w'.rs1)
    (himm : w.bits 20 12 = w'.bits 20 12) : w = w' := by
  apply Instruction.ofWord_inj (f := .I)
  simp only [Instruction.ofWord, hopcode, hfunct3, hrd, hrs1, himm]

/-- Words that do the same and show the same are the same, unless they are fences. -/
theorem eq_of_operands {pc w w' : Word} {op : Operation} (he : op.Encodes w)
    (he' : op.Encodes w') (hfence : op ≠ .fence) (hfenceI : op ≠ .fenceI)
    (h : Decoded.operands pc ⟨op, Instruction.ofWord op.format w⟩ =
      Decoded.operands pc ⟨op, Instruction.ofWord op.format w'⟩) : w = w' := by
  have hopcode := he.opcode_eq he'
  cases op with
  | lui | auipc =>
      obtain ⟨hrd, hupper⟩ : w.rd = w'.rd ∧ w.bits 12 20 = w'.bits 12 20 := by
        simpa [Decoded.operands, Instruction.ofWord, Operation.format] using h
      apply Instruction.ofWord_inj (f := .U)
      simp only [Instruction.ofWord, hopcode, hrd, hupper]
  | jal =>
      obtain ⟨hrd, htarget⟩ : w.rd = w'.rd ∧ _ := by
        simpa only [Decoded.operands, Instruction.ofWord, Operation.format, List.cons.injEq,
          Operand.register.injEq, Operand.target.injEq, and_true] using h
      apply Instruction.ofWord_inj (f := .J)
      simp only [Instruction.ofWord, hopcode, hrd,
        jumpOffset_inj ((BitVec.add_right_inj pc).mp htarget)]
  | branch c =>
      obtain ⟨hrs1, hrs2, htarget⟩ : w.rs1 = w'.rs1 ∧ w.rs2 = w'.rs2 ∧ _ := by
        simpa only [Decoded.operands, Instruction.ofWord, Operation.format, List.cons.injEq,
          Operand.register.injEq, Operand.target.injEq, and_true] using h
      apply Instruction.ofWord_inj (f := .B)
      simp only [Instruction.ofWord, hopcode, he.funct3_eq he' rfl, hrs1, hrs2,
        branchOffset_inj ((BitVec.add_right_inj pc).mp htarget)]
  | jalr | load k =>
      obtain ⟨hrd, himm, hrs1⟩ :
          w.rd = w'.rd ∧ w.bits 20 12 = w'.bits 20 12 ∧ w.rs1 = w'.rs1 := by
        simpa [Decoded.operands, Instruction.ofWord, Operation.format] using h
      exact eq_of_immediate hopcode (he.funct3_eq he' rfl) hrd hrs1 himm
  | store width =>
      obtain ⟨hrs2, himm, hrs1⟩ : w.rs2 = w'.rs2 ∧
          w.bits 25 7 ++ w.bits 7 5 = w'.bits 25 7 ++ w'.bits 7 5 ∧ w.rs1 = w'.rs1 := by
        simpa [Decoded.operands, Instruction.ofWord, Operation.format] using h
      apply Instruction.ofWord_inj (f := .S)
      simp only [Instruction.ofWord, hopcode, he.funct3_eq he' rfl, hrs1, hrs2, himm]
  | aluImm o =>
      obtain ⟨hrd, hrs1, hshown⟩ : w.rd = w'.rd ∧ w.rs1 = w'.rs1 ∧ _ := by
        simpa only [Decoded.operands, Instruction.ofWord, Operation.format, List.cons.injEq,
          Operand.register.injEq, and_true] using h
      exact eq_of_immediate hopcode (he.funct3_eq he' rfl) hrd hrs1 (immediate_inj he he' hshown)
  | alu o =>
      obtain ⟨g, hg⟩ : ∃ g, (Operation.alu o).funct7? = some g := by
        cases o <;> exact ⟨_, rfl⟩
      exact eq_of_registers hopcode (he.funct3_eq he' rfl) (he.funct7_eq he' hg) h
  | sub | mulDiv o => exact eq_of_registers hopcode (he.funct3_eq he' rfl) (he.funct7_eq he' rfl) h
  | csr a immediate =>
      obtain ⟨hrd, hnumber, hrs1⟩ : w.rd = w'.rd ∧
          ((w.bits 20 12).setWidth 16 : CsrNumber) = (w'.bits 20 12).setWidth 16 ∧
          w.rs1 = w'.rs1 := by
        cases immediate <;>
          simpa only [Decoded.operands, Instruction.ofWord, Operation.format, List.cons.injEq,
            Operand.register.injEq, Operand.control.injEq, Operand.small.injEq, if_true,
            Bool.false_eq_true, if_false, and_true] using h
      exact eq_of_immediate hopcode (he.funct3_eq he' rfl) hrd hrs1 (controlNumber_inj hnumber)
  | ecall | ebreak | mret => exact he.word_eq he' rfl
  | fence => exact absurd rfl hfence
  | fenceI => exact absurd rfl hfenceI

/-! ### Words with the same text -/

/-- On a full hart the word does this. -/
def Word.Does (w : Word) (op : Operation) : Prop :=
  (Extension.decodeBy Extension.full w).map Decoded.operation = some op

theorem Word.does_iff {w : Word} {op : Operation} : w.Does op ↔ Extension.table? w = some op := by
  unfold Word.Does
  rw [Extension.decodeBy_full, Option.map_map]
  exact iff_of_eq (congrArg (· = some op) (Option.map_id_apply (x := Extension.table? w)))

theorem disassemble_of_none {w pc : Word} (h : Extension.table? w = none) :
    disassemble w pc = (Assembly.data w).text := by
  unfold disassemble
  rw [Assembly.ofWord_eq_table?, h]
  rfl

theorem disassemble_of_some {w pc : Word} {op : Operation} (h : Extension.table? w = some op) :
    disassemble w pc = Assembly.column op.mnemonic (String.intercalate ", "
      ((Decoded.operands pc ⟨op, Instruction.ofWord op.format w⟩).map Operand.text)) := by
  unfold disassemble
  rw [Assembly.ofWord_eq_table?, h]
  rfl

theorem data_text_inj {w w' : Word} (h : (Assembly.data w).text = (Assembly.data w').text) :
    w = w' :=
  Text.fullWord_inj ((String.append_right_inj ".word ").mp h)

/-- Two words that are no fences are the same if they have the same text. -/
theorem eq_or_fences {w w' pc : Word} (h : disassemble w pc = disassemble w' pc) :
    w = w' ∨ (w.Does .fence ∧ w'.Does .fence) ∨ (w.Does .fenceI ∧ w'.Does .fenceI) := by
  cases hw : Extension.table? w with
  | none =>
      cases hw' : Extension.table? w' with
      | none =>
          rw [disassemble_of_none hw, disassemble_of_none hw'] at h
          exact Or.inl (data_text_inj h)
      | some op' =>
          rw [disassemble_of_none hw, disassemble_of_some hw'] at h
          exact absurd h.symm (Assembly.column_ne_data op' _ w)
  | some op =>
      cases hw' : Extension.table? w' with
      | none =>
          rw [disassemble_of_some hw, disassemble_of_none hw'] at h
          exact absurd h (Assembly.column_ne_data op _ w')
      | some op' =>
          rw [disassemble_of_some hw, disassemble_of_some hw'] at h
          obtain rfl := Assembly.operation_of_column h
          by_cases hfence : op = .fence
          · subst hfence
            exact Or.inr (Or.inl ⟨Word.does_iff.mpr hw, Word.does_iff.mpr hw'⟩)
          by_cases hfenceI : op = .fenceI
          · subst hfenceI
            exact Or.inr (Or.inr ⟨Word.does_iff.mpr hw, Word.does_iff.mpr hw'⟩)
          have hoperands := Operand.texts_inj (Decoded.alike_operands pc w w' op)
            (Assembly.operands_of_column h)
          exact Or.inl (eq_of_operands (Extension.encodes_of_table? hw)
            (Extension.encodes_of_table? hw') hfence hfenceI hoperands)

/-- Fences show nothing but their names. -/
theorem disassemble_fences {w w' pc : Word} {op : Operation} (hop : op = .fence ∨ op = .fenceI)
    (hw : w.Does op) (hw' : w'.Does op) : disassemble w pc = disassemble w' pc := by
  rw [disassemble_of_some (Word.does_iff.mp hw), disassemble_of_some (Word.does_iff.mp hw')]
  rcases hop with rfl | rfl
  · rfl
  · rfl

/-! ### Carrying words out -/

namespace Hart

variable {β : Type} [Bus β]

/-- What a step makes of the word that it has fetched. -/
def stepWord (h : Hart) (raw : Word) (bus : β) : Hart × β :=
  match h.performWord raw bus with
  | .completed c => ((h.adopt c).complete c.next, c.bus)
  | .raised e c => ((h.adopt c).takeTrap (.exception e) h.pc (trapValue raw h.pc e), c.bus)

theorem step_eq_stepWord (h : Hart) (bus : β) :
    h.step bus = h.stepWord (Access.fetch bus h.pc).1 (Access.fetch bus h.pc).2 := rfl

/-- What a word does on a hart that decodes it, it does on a full hart. -/
theorem operation_of_does {h : Hart} {w : Word} {op : Operation} (hw : w.Does op) {d : Decoded}
    (hd : h.decode? w = some d) : d.operation = op := by
  unfold Word.Does at hw
  rw [Extension.decodeBy_full_of_decodeBy hd] at hw
  exact Option.some.inj hw

/-- A set claims both of two fences of one kind or neither. -/
theorem operation?_fences {w w' : Word} {op : Operation} (hop : op = .fence ∨ op = .fenceI)
    (hw : w.Does op) (hw' : w'.Does op) (e : Extension) : e.operation? w = e.operation? w' := by
  have he := Extension.encodes_of_table? (Word.does_iff.mp hw)
  have he' := Extension.encodes_of_table? (Word.does_iff.mp hw')
  have hopcode : w.opcode = 0x0f#7 ∧ w'.opcode = 0x0f#7 := by
    rcases hop with rfl | rfl
    · exact ⟨he.opcode, he'.opcode⟩
    · exact ⟨he.opcode, he'.opcode⟩
  have hfunct3 : w.funct3 = w'.funct3 := by
    rcases hop with rfl | rfl
    · exact he.funct3_eq he' rfl
    · exact he.funct3_eq he' rfl
  cases e with
  | i => simp only [Extension.operation?, Extension.base?, hopcode, hfunct3]
  | m | zicsr | zifencei => simp [Extension.operation?, hopcode, hfunct3]

/-- Fences do not look at their fields, so a hart does the same with two of one kind, if it knows
them. -/
theorem stepWord_fences {h : Hart} {w w' : Word} {op : Operation}
    (hop : op = .fence ∨ op = .fenceI) (hw : w.Does op) (hw' : w'.Does op)
    (hd : (h.decode? w).isSome = true) (bus : β) : h.stepWord w bus = h.stepWord w' bus := by
  obtain ⟨d, hd⟩ := Option.isSome_iff_exists.mp hd
  obtain ⟨e, he, op', hclaim, rfl⟩ := Extension.claims_of_decodeBy hd
  obtain rfl : op' = op := operation_of_does hw hd
  have hd' : h.decode? w' = some ⟨op', Instruction.ofWord op'.format w'⟩ :=
    Extension.decodeBy_of_claims he ((operation?_fences hop hw hw' e).symm.trans hclaim)
  unfold stepWord performWord
  rw [hd, hd']
  rcases hop with rfl | rfl
  · rfl
  · rfl

/-- A word that is not decoded is recorded. -/
theorem mtval_stepWord {h : Hart} {w : Word} (hd : h.decode? w = none) (bus : β) :
    (h.stepWord w bus).1.csr.mtval = w := by
  unfold stepWord performWord
  rw [hd]
  rfl

theorem decode?_fences {h : Hart} {w w' : Word} {op : Operation}
    (hop : op = .fence ∨ op = .fenceI) (hw : w.Does op) (hw' : w'.Does op)
    (hd : h.decode? w = none) : h.decode? w' = none := by
  by_contra hd'
  obtain ⟨d, hd'⟩ := Option.ne_none_iff_exists'.mp hd'
  obtain ⟨e, he, op', hclaim, -⟩ := Extension.claims_of_decodeBy hd'
  have hsome := Extension.decodeBy_of_claims he ((operation?_fences hop hw hw' e).trans hclaim)
  cases hd.symm.trans hsome

/-- Two fences of one kind have the same effect exactly if they are known or are the same. -/
theorem stepWord_fences_iff {h : Hart} {w w' : Word} {op : Operation}
    (hop : op = .fence ∨ op = .fenceI) (hw : w.Does op) (hw' : w'.Does op) (bus : β) :
    h.stepWord w bus = h.stepWord w' bus ↔ w = w' ∨ (h.decode? w).isSome = true := by
  constructor
  · intro hsame
    cases hd : h.decode? w with
    | some d => exact .inr rfl
    | none =>
        have hmtval := congrArg (fun s => s.1.csr.mtval) hsame
        rw [mtval_stepWord hd, mtval_stepWord (decode?_fences hop hw hw' hd)] at hmtval
        exact .inl hmtval
  · rintro (rfl | hd)
    · rfl
    · exact stepWord_fences hop hw hw' hd bus

end Hart

/-- **Disassembly loses nothing that matters.**  Words have the same text at an address exactly
if they are the same or are both fences of one kind.  Then any hart, in whatever state it and its
memory are, comes out of either in the same way, if it decodes them.  If it does not, it records
the word, and so comes out in the same way of the same word only. -/
theorem disassembly_loses_nothing (w w' pc : Word) :
    (disassemble w pc = disassemble w' pc ↔
      w = w' ∨ (w.Does .fence ∧ w'.Does .fence) ∨ (w.Does .fenceI ∧ w'.Does .fenceI)) ∧
    (disassemble w pc = disassemble w' pc → ∀ (h : Hart) {β : Type} [Bus β] (bus : β),
      h.stepWord w bus = h.stepWord w' bus ↔ w = w' ∨ (h.decode? w).isSome = true) := by
  refine ⟨⟨eq_or_fences, ?_⟩, ?_⟩
  · rintro (rfl | ⟨hw, hw'⟩ | ⟨hw, hw'⟩)
    · rfl
    · exact disassemble_fences (Or.inl rfl) hw hw'
    · exact disassemble_fences (Or.inr rfl) hw hw'
  · intro htext h β _ bus
    rcases eq_or_fences htext with rfl | ⟨hw, hw'⟩ | ⟨hw, hw'⟩
    · exact iff_of_true rfl (.inl rfl)
    · exact Hart.stepWord_fences_iff (Or.inl rfl) hw hw' bus
    · exact Hart.stepWord_fences_iff (Or.inr rfl) hw hw' bus

/-- Two words for a fence, of which one orders everything and the other nothing. -/
theorem disassembly_loses_nothing_fence :
    disassemble 0x0ff0000f#32 0#32 = disassemble 0x0000000f#32 0#32 ∧
    ({} : Hart).stepWord 0x0ff0000f#32 ({} : WordMemory) =
      ({} : Hart).stepWord 0x0000000f#32 ({} : WordMemory) := by
  have htext : disassemble 0x0ff0000f#32 0#32 = disassemble 0x0000000f#32 0#32 := by
    decide
  have hknown : (({} : Hart).decode? 0x0ff0000f#32).isSome = true := by decide
  exact ⟨htext, ((disassembly_loses_nothing 0x0ff0000f#32 0x0000000f#32 0#32).2 htext {}
    ({} : WordMemory)).mpr (.inr hknown)⟩

/-- Two words for a fence of instructions, on a hart without the set it belongs to: each is illegal
and leaves itself behind. -/
theorem unknown_fences_differ :
    let h : Hart := { isa := [.i, .m, .zicsr] }
    disassemble 0x0000100f#32 0#32 = disassemble 0x0010100f#32 0#32 ∧
    Word.Does 0x0000100f#32 .fenceI ∧ Word.Does 0x0010100f#32 .fenceI ∧
    h.stepWord 0x0000100f#32 ({} : WordMemory) ≠ h.stepWord 0x0010100f#32 ({} : WordMemory) := by
  intro h
  refine ⟨by decide, Word.does_iff.mpr (by decide), Word.does_iff.mpr (by decide),
    fun hsame => ?_⟩
  have hmtval := congrArg (fun s => s.1.csr.mtval) hsame
  exact absurd hmtval (by decide)

end HomeComputer
