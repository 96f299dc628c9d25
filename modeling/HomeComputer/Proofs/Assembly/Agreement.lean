/-
The disassembler reads words as the decoder does.

The two know the instructions apart from each other: the decoder asks its sets for an operation
and cuts the word by the operation's format, the disassembler goes from code to code to a name.
`Decoded.operands` says what a decoded word has to show, from its fields alone, and
`Assembly.ofWord_eq` that the disassembler shows it, under the name of the operation, and shows
plain data where the decoder finds nothing.

Each of the disassembler's tables of names is one of the decoder's tables with the names put in,
and the table of operations (`Extension.table?`) leads through all of them.

How all this is spelled is compared with the manual's listing, which is written apart from the
disassembler (`Assembly.text_line`).  What a jump shows as its target is where it goes when it is
carried out (`next_of_target`).
-/
import HomeComputer.Assembly
import HomeComputer.Memory.WordMemory
import HomeComputer.Processor.Hart
import HomeComputer.Proofs.Assembly.Manual
import HomeComputer.Proofs.Isa.Integers
import HomeComputer.Proofs.Isa.Table
import HomeComputer.Proofs.Text.Numerals

namespace HomeComputer

/-! ### What a decoded word has to show -/

namespace Decoded

/-- The operands of a decoded word at address `pc`, in the order in which they are shown. -/
def operands (pc : Word) (d : Decoded) : List Operand :=
  match d.operation, d.instruction with
  | .lui, .u _ rd upper | .auipc, .u _ rd upper => [.register rd, .upper upper]
  | .jal, .j _ rd half => [.register rd, .target (pc + jumpOffset half)]
  | .jalr, .i _ rd _ rs1 imm | .load _, .i _ rd _ rs1 imm => [.register rd, .place imm rs1]
  | .branch _, .b _ _ rs1 rs2 half =>
      [.register rs1, .register rs2, .target (pc + branchOffset half)]
  | .store _, .s _ _ rs1 rs2 imm => [.register rs2, .place imm rs1]
  | .aluImm o, .i _ rd _ rs1 imm =>
      [.register rd, .register rs1, if o.isShift then .small (imm.setWidth 5) else .signed imm]
  | .alu _, .r _ rd _ rs1 rs2 _ | .sub, .r _ rd _ rs1 rs2 _ | .mulDiv _, .r _ rd _ rs1 rs2 _ =>
      [.register rd, .register rs1, .register rs2]
  | .csr _ immediate, .i _ rd _ rs1 imm =>
      [.register rd, .control (imm.setWidth 16), if immediate then .small rs1 else .register rs1]
  | _, _ => []

/-- Whether a decoded word that shows a target goes there, given the registers: a jump always
does, a branch if its condition holds. -/
def jumps (d : Decoded) (x : Registers) : Bool :=
  match d.operation, d.instruction with
  | .jal, _ => true
  | .branch c, .b _ _ rs1 rs2 _ => c.holds (x.get rs1) (x.get rs2)
  | _, _ => false

end Decoded

namespace Assembly

/-! ### Tables of names -/

theorem branchName?_eq (f : BitVec 3) :
    branchName? f = (Extension.condition? f).map fun c => (Operation.branch c).mnemonic := by
  revert f
  decide

theorem loadName?_eq (f : BitVec 3) :
    loadName? f = (Extension.loadKind? f).map fun k => (Operation.load k).mnemonic := by
  revert f
  decide

theorem storeName?_eq (f : BitVec 3) :
    storeName? f = (Extension.storeWidth? f).map fun width => (Operation.store width).mnemonic := by
  revert f
  decide

theorem immediateName?_eq (f : BitVec 3) (g : BitVec 7) (imm : BitVec 12) :
    immediateName? f g imm = (Extension.aluImm? f g).map fun o =>
      ((Operation.aluImm o).mnemonic,
        if o.isShift then .small (imm.setWidth 5) else .signed imm) := by
  unfold immediateName?
  split
  case h_10 =>
    -- Codes without a line: an operation would have one of the lines before.
    cases h : Extension.aluImm? f g with
    | none => rfl
    | some o =>
        obtain ⟨hf, hg⟩ := Extension.codes_of_aluImm? h
        have hshift (g' : BitVec 7) (hg' : (Operation.aluImm o).funct7? = some g') : g = g' := by
          rw [hg'] at hg
          exact hg
        clear hg
        cases o <;> simp_all [Alu.code, Operation.funct7?]
  all_goals rfl

theorem registerName?_mulDiv (f : BitVec 3) :
    registerName? 1#7 f = some (Operation.mulDiv (Extension.mulDiv f)).mnemonic := by
  revert f
  decide

theorem registerName?_eq {f : BitVec 3} {g : BitVec 7} (hg : g ≠ 1#7) :
    registerName? g f = (Extension.register? f g).map Operation.mnemonic := by
  revert f g
  decide

theorem controlName?_eq (f : BitVec 3) :
    controlName? f = (Extension.csr? f).map Operation.mnemonic := by
  revert f
  decide

/-! ### Words -/

/-- Arithmetic on registers shows three registers, whatever it is called. -/
theorem registers_eq {w pc : Word} {op : Operation} (hop : op.opcode = 0x33#7) :
    registers op.mnemonic w =
      line op.mnemonic (Decoded.operands pc ⟨op, Instruction.ofWord op.format w⟩) := by
  cases op with
  | alu o | sub | mulDiv o => rfl
  | _ => simp [Operation.opcode] at hop

/-- Access to a control register shows a number in place of the source exactly if the operation
takes one. -/
theorem control_eq {w pc : Word} {op : Operation} (h : Extension.csr? w.funct3 = some op) :
    control op.mnemonic w =
      line op.mnemonic (Decoded.operands pc ⟨op, Instruction.ofWord op.format w⟩) := by
  obtain ⟨hop, hf, -, hword⟩ := Extension.code_of_csr? h
  cases op with
  | csr a immediate =>
      have hbit : w.funct3.getLsbD 2 = immediate := by
        rw [← Option.some.inj hf]
        cases a <;> cases immediate <;> rfl
      simp only [control, Instruction.ofWord, hbit]
      rfl
  | ecall | ebreak | mret => simp [Operation.word?] at hword
  | _ => simp [Operation.opcode] at hop

/-- By the table of operations, the disassembler names what the word does and shows the fields
that go with it. -/
theorem ofWord_eq_table? (w pc : Word) :
    ofWord w pc = (Extension.table? w).elim (data w) fun op =>
      line op.mnemonic (Decoded.operands pc ⟨op, Instruction.ofWord op.format w⟩) := by
  fun_cases Extension.table? w with
  | case1 ho | case2 ho | case3 ho =>
      simp only [ofWord, ho]
      rfl
  | case4 ho hf | case5 ho hf | case12 ho hf | case13 ho _ hf =>
      simp only [ofWord, ho, hf]
      rfl
  | case6 ho =>
      simp only [ofWord, ho, branchName?_eq]
      cases Extension.condition? w.funct3 with
      | none => rfl
      | some c => rfl
  | case7 ho =>
      simp only [ofWord, ho, loadName?_eq]
      cases Extension.loadKind? w.funct3 with
      | none => rfl
      | some k => rfl
  | case8 ho =>
      simp only [ofWord, ho, storeName?_eq]
      cases Extension.storeWidth? w.funct3 with
      | none => rfl
      | some width => rfl
  | case9 ho =>
      simp only [ofWord, ho, arithmetic, Instruction.ofWord, immediateName?_eq]
      cases Extension.aluImm? w.funct3 w.funct7 with
      | none => rfl
      | some o => rfl
  | case10 ho hg =>
      simp only [ofWord, ho, hg, registerName?_mulDiv]
      rfl
  | case11 ho hg =>
      simp only [ofWord, ho, registerName?_eq hg]
      cases h : Extension.register? w.funct3 w.funct7 with
      | none => rfl
      | some op => exact registers_eq (Extension.codes_of_register? h).1
  | case14 ho hf hf' =>
      simp only [ofWord, ho]
      rfl
  | case15 ho hw | case16 ho _ hw | case17 ho _ _ hw =>
      subst hw
      rfl
  | case18 ho he hb hm =>
      simp only [ofWord, ho, system, if_neg he, if_neg hb, if_neg hm, controlName?_eq]
      cases h : Extension.csr? w.funct3 with
      | none => rfl
      | some op => exact control_eq h
  | case19 =>
      simp only [ofWord]
      rfl

/-- **A word reads as it is decoded**: as plain data if no set claims it, and else under the
name of its operation with the operands that its fields call for. -/
theorem ofWord_eq (w pc : Word) :
    ofWord w pc = (Extension.decodeBy Extension.full w).elim (data w) fun d =>
      line d.operation.mnemonic (d.operands pc) := by
  rw [ofWord_eq_table?, Extension.decodeBy_full]
  cases Extension.table? w with
  | none => rfl
  | some op => rfl

/-! ### Text -/

/-- A line, with a blank after it, is its mnemonic up to a blank. -/
theorem exists_toList_column {mnemonic : String} (hm : mnemonic.length < 8) (operands : String) :
    ∃ rest, (column mnemonic operands).toList ++ [' '] = mnemonic.toList ++ ' ' :: rest := by
  unfold column
  by_cases hempty : operands.isEmpty
  · rw [if_pos hempty]
    exact ⟨[], rfl⟩
  · obtain ⟨k, hk⟩ : ∃ k, 8 - mnemonic.length = k + 1 := ⟨7 - mnemonic.length, by omega⟩
    refine ⟨List.replicate k ' ' ++ operands.toList ++ [' '], ?_⟩
    rw [if_neg hempty, Text.padRight, hk, List.replicate_succ]
    simp

end Assembly

/-- Names of operations are short, hold no blank and start with a letter. -/
theorem Operation.plain_mnemonic (op : Operation) :
    op.mnemonic.length < 8 ∧ ' ' ∉ op.mnemonic.toList ∧
      op.mnemonic.toList.head?.any Char.isAlpha = true := by
  have hall : ∀ op ∈ Operation.all, op.mnemonic.length < 8 ∧ ' ' ∉ op.mnemonic.toList ∧
      op.mnemonic.toList.head?.any Char.isAlpha = true := by decide
  exact hall op op.mem_all

namespace Assembly

/-- Plain data has the eight digits of the word. -/
theorem text_data (w : Word) :
    (data w).text = ".word 0x" ++ String.ofList (Text.lowDigits 8 w.toNat) := by
  show ".word " ++ Text.fullWord w.toNat = _
  rw [Text.fullWord_eq, ← String.append_assoc]
  rfl

/-- The name of an operation starts with a letter, and plain data does not. -/
theorem column_ne_data (op : Operation) (operands : String) (w : Word) :
    column op.mnemonic operands ≠ (data w).text := by
  intro h
  obtain ⟨hshort, -, hletter⟩ := op.plain_mnemonic
  obtain ⟨rest, hrest⟩ := exists_toList_column hshort operands
  have hdata : ((column op.mnemonic operands).toList ++ [' ']).head? = some '.' := by
    rw [h]
    simp [text]
  rw [hrest] at hdata
  cases hm : op.mnemonic.toList with
  | nil => simp [hm] at hletter
  | cons c m =>
      rw [hm] at hletter hdata
      obtain rfl : c = '.' := by simpa using hdata
      rw [List.head?_cons, Option.any_some] at hletter
      exact absurd hletter (by decide)

end Assembly

/-! ### The manual's listing -/

theorem Operation.mnemonic_eq (op : Operation) : op.mnemonic = Manual.mnemonic op := by
  have hall : ∀ op ∈ Operation.all, op.mnemonic = Manual.mnemonic op := by decide
  exact hall op op.mem_all

theorem Registers.name_eq : ∀ r : Reg, Registers.name r = Manual.register r.toNat := by decide

/-- The manual's table of control registers has each of them with its number. -/
theorem Csr.controlNames_eq :
    Manual.controlNames = Csr.all.map fun c => (c.number.toNat, c.name) := by decide

namespace Operand

theorem text_control_of_some {n : CsrNumber} {c : Csr} (h : Csr.ofNumber? n = some c) :
    (control n).text = c.name := by
  simp only [text, h]

theorem text_control_of_none {n : CsrNumber} (h : Csr.ofNumber? n = none) :
    (control n).text = Text.address n.toNat := by
  simp only [text, h]

theorem text_control (n : CsrNumber) : (control n).text = Manual.control n.toNat := by
  have hlookup (cs : List Csr) : (cs.map fun c => (c.number.toNat, c.name)).lookup n.toNat =
      (cs.find? (·.number == n)).map Csr.name := by
    induction cs with
    | nil => rfl
    | cons c cs ih =>
        by_cases hc : c.number = n
        · simp [hc]
        · have hnat : n.toNat ≠ c.number.toNat := fun h => hc (BitVec.eq_of_toNat_eq h.symm)
          rw [List.map_cons, List.lookup_cons, beq_false_of_ne hnat, List.find?_cons,
            beq_false_of_ne hc]
          exact ih
  unfold Manual.control
  rw [Csr.controlNames_eq, hlookup]
  show _ = ((Csr.ofNumber? n).map Csr.name).getD _
  cases hn : Csr.ofNumber? n with
  | none => exact text_control_of_none hn
  | some c => exact text_control_of_some hn

/-- The number of a control register is a field of the word. -/
theorem text_control_immI (w : Word) :
    (control ((w.bits 20 12).setWidth 16)).text = Manual.control (Manual.field w 20 12) := by
  have hlt : Manual.field w 20 12 < 2 ^ 16 :=
    Nat.lt_trans (Nat.mod_lt _ (by decide)) (by decide : 2 ^ 12 < 2 ^ 16)
  rw [text_control, BitVec.toNat_setWidth, Manual.toNat_bits, Nat.mod_eq_of_lt hlt]

/-- So is the amount of a shift: the upper bits of the immediate are a code. -/
theorem text_amount (w : Word) :
    (small ((w.bits 20 12).setWidth 5)).text = toString (Manual.field w 20 5) := by
  show toString ((w.bits 20 12).setWidth 5).toNat = _
  rw [BitVec.toNat_setWidth, Manual.toNat_bits]
  unfold Manual.field
  rw [Nat.mod_mod_of_dvd _ (by decide)]

theorem text_signed_immI (w : Word) :
    (signed (w.bits 20 12)).text = toString (Manual.immI w) := by
  rw [← Manual.toInt_immI, Manual.toInt_signedImmediate]
  rfl

theorem text_place {imm : BitVec 12} {distance : Int}
    (h : (signedImmediate imm).toInt = distance) (base : Reg) :
    (place imm base).text = Manual.place distance base.toNat := by
  show toString imm.toInt ++ "(" ++ Registers.name base ++ ")" = _
  rw [← Manual.toInt_signedImmediate, h, Registers.name_eq]
  rfl

theorem text_target {offset : Word} {distance : Int} (h : offset.toInt = distance) (pc : Word) :
    (target (pc + offset)).text =
      Manual.hexadecimal (Manual.unsigned (pc.toNat + distance)) := by
  rw [← h, ← Manual.toNat_address_add]
  rfl

end Operand

namespace Decoded

/-- A decoded word shows what the manual has for its operation, spelled so. -/
theorem text_operands (pc w : Word) (op : Operation) :
    (operands pc ⟨op, Instruction.ofWord op.format w⟩).map Operand.text =
      Manual.operands pc.toNat w op := by
  have hregister (start : Nat) : (Operand.register (w.bits start 5)).text =
      Manual.register (Manual.field w start 5) := by
    rw [← Manual.toNat_bits]
    exact Registers.name_eq _
  have hrd : (Operand.register w.rd).text = Manual.register (Manual.rd w) := hregister 7
  have hrs1 : (Operand.register w.rs1).text = Manual.register (Manual.rs1 w) := hregister 15
  have hrs2 : (Operand.register w.rs2).text = Manual.register (Manual.rs2 w) := hregister 20
  have hbase : w.rs1.toNat = Manual.rs1 w := Manual.toNat_bits w 15 5
  cases op with
  | lui | auipc =>
      show [_, Manual.hexadecimal (w.bits 12 20).toNat] = _
      rw [Manual.toNat_bits, hrd]
      rfl
  | jal =>
      show [_, _] = _
      rw [hrd, Operand.text_target (Manual.toInt_immJ w)]
      rfl
  | branch c =>
      show [_, _, _] = _
      rw [hrs1, hrs2, Operand.text_target (Manual.toInt_immB w)]
      rfl
  | jalr | load k =>
      show [_, _] = _
      rw [hrd, Operand.text_place (Manual.toInt_immI w), hbase]
      rfl
  | store width =>
      show [_, _] = _
      rw [hrs2, Operand.text_place (Manual.toInt_immS w), hbase]
      rfl
  | aluImm o =>
      show [_, _, (if o.isShift then Operand.small _ else .signed _).text] = _
      rw [hrd, hrs1, apply_ite Operand.text, Operand.text_amount, Operand.text_signed_immI]
      cases o <;> rfl
  | alu o | sub | mulDiv o =>
      show [_, _, _] = _
      rw [hrd, hrs1, hrs2]
      rfl
  | csr a immediate =>
      show [_, _, (if immediate then Operand.small _ else .register _).text] = _
      rw [hrd, Operand.text_control_immI, apply_ite Operand.text, hrs1]
      cases immediate with
      | false => rfl
      | true => exact congrArg (fun n : Nat => [_, _, toString n]) hbase
  | fence | fenceI | ecall | ebreak | mret => rfl

end Decoded

namespace Assembly

theorem column_eq_line (name : String) {xs : List String}
    (hxs : xs = [] ∨ ∃ x y rest, xs = x :: y :: rest) :
    column name (String.intercalate ", " xs) = Manual.line name xs := by
  rcases hxs with rfl | ⟨x, y, rest, rfl⟩
  · rfl
  · have hcomma : (String.intercalate ", " (x :: y :: rest)).isEmpty = false := by
      rw [String.intercalate_cons_cons, Bool.eq_false_iff, Ne, String.isEmpty_iff]
      intro h
      have hlength := congrArg String.length h
      simp at hlength
    unfold column Text.padRight
    rw [if_neg (Bool.eq_false_iff.mp hcomma)]
    rfl

/-- The line of a decoded word is the manual's for its operation. -/
theorem text_line (pc w : Word) (op : Operation) :
    (line op.mnemonic (Decoded.operands pc ⟨op, Instruction.ofWord op.format w⟩)).text =
      Manual.line (Manual.mnemonic op) (Manual.operands pc.toNat w op) := by
  show column _ (String.intercalate ", " (List.map Operand.text _)) = _
  rw [Decoded.text_operands, op.mnemonic_eq]
  refine column_eq_line _ ?_
  cases op with
  | fence | fenceI | ecall | ebreak | mret => exact .inl rfl
  | aluImm o => cases o <;> exact .inr ⟨_, _, _, rfl⟩
  | csr a immediate => cases immediate <;> exact .inr ⟨_, _, _, rfl⟩
  | _ => exact .inr ⟨_, _, _, rfl⟩

end Assembly

/-! ### Targets -/

namespace Hart

variable {β : Type} [Bus β]

/-- What a word has as its target is where it goes, if it jumps. -/
theorem next_of_target {h : Hart} {w : Word} {d : Decoded} (hd : h.decode? w = some d)
    {target : Nat} (ht : Manual.target? h.pc.toNat w d.operation = some target) (bus : β) :
    ∃ c, h.performWord w bus = .completed c ∧
      c.next = if d.jumps h.registers then BitVec.ofNat 32 target else h.pc + 4#32 := by
  have htarget (offset : Word) :
      h.pc + offset = BitVec.ofNat 32 (Manual.unsigned (h.pc.toNat + offset.toInt)) := by
    rw [← Manual.toNat_address_add, BitVec.ofNat_toNat, BitVec.setWidth_eq]
  obtain ⟨e, -, op, -, rfl⟩ := Extension.claims_of_decodeBy hd
  unfold performWord
  rw [hd]
  cases op with
  | jal =>
      obtain rfl := Option.some.inj ht
      rw [← Manual.toInt_immJ, ← htarget]
      exact ⟨_, rfl, rfl⟩
  | branch c =>
      obtain rfl := Option.some.inj ht
      rw [← Manual.toInt_immB, ← htarget]
      exact ⟨_, rfl, apply_ite Context.next _ _ _⟩
  | _ => cases ht

end Hart

/-! ### Agreement -/

/-- **The disassembler and the decoder agree on every word.**  A word is shown as plain data, in
eight digits, exactly if a full hart does not decode it.  Any other is shown as the manual writes
the operation that it is decoded to, with the fields and immediates of the word as operands.  The
target of a jump or a branch is where the hart goes on from the word if the word jumps. -/
theorem disassembly_agrees (h : Hart) (hisa : h.isa = Extension.full) (w : Word) :
    (h.decode? w = none ↔
      disassemble w h.pc = ".word 0x" ++ String.ofList (Text.lowDigits 8 w.toNat)) ∧
    ∀ d, h.decode? w = some d →
      disassemble w h.pc = Manual.line (Manual.mnemonic d.operation)
        (Manual.operands h.pc.toNat w d.operation) ∧
      ∀ target, Manual.target? h.pc.toNat w d.operation = some target →
        ∀ {β : Type} [Bus β] (bus : β), ∃ c, h.performWord w bus = .completed c ∧
          c.next = if d.jumps h.registers then BitVec.ofNat 32 target else h.pc + 4#32 := by
  have hdecode : h.decode? w = Extension.decodeBy Extension.full w := by
    unfold Hart.decode?
    rw [hisa]
  unfold disassemble
  rw [← Assembly.text_data, Assembly.ofWord_eq, ← hdecode]
  cases hd : h.decode? w with
  | none => exact ⟨⟨fun _ => rfl, fun _ => rfl⟩, by rintro d ⟨⟩⟩
  | some d =>
      refine ⟨⟨by rintro ⟨⟩, fun hshown => ?_⟩, ?_⟩
      · exact absurd hshown (Assembly.column_ne_data d.operation _ w)
      · rintro d' ⟨⟩
        refine ⟨?_, fun target ht _ _ bus => Hart.next_of_target hd ht bus⟩
        obtain ⟨e, -, op, -, rfl⟩ := Extension.claims_of_decodeBy hd
        exact Assembly.text_line h.pc w op

/-- Lines of every shape.  The branch leads back over the address 0x80000000, and goes there. -/
theorem disassembly_agrees_lines :
    let h : Hart := { pc := 0x80000000#32, registers := Registers.zero.set 2#5 1#32 }
    h.isa = Extension.full ∧
    disassemble 0x00000000#32 h.pc = ".word 0x00000000" ∧
    disassemble 0xfffff2b7#32 h.pc = "lui     t0, 0xfffff" ∧
    disassemble 0x80058513#32 h.pc = "addi    a0, a1, -2048" ∧
    disassemble 0x41f95493#32 h.pc = "srai    s1, s2, 31" ∧
    disassemble 0x7ef1afa3#32 h.pc = "sw      a5, 2047(gp)" ∧
    disassemble 0x30031073#32 h.pc = "csrrw   zero, mstatus, t1" ∧
    disassemble 0x1232e573#32 h.pc = "csrrsi  a0, 0x123, 5" ∧
    disassemble 0x0000100f#32 h.pc = "fence.i" ∧
    disassemble 0xffd11ee3#32 h.pc = "bne     sp, t4, 0x7ffffffc" ∧
    ∃ c : Context WordMemory, h.performWord 0xffd11ee3#32 {} = .completed c ∧
      c.next = 0x7ffffffc#32 := by
  intro h
  have hdata := (disassembly_agrees h rfl 0x00000000#32).1.mp (by decide)
  have hline (w : Word) {d : Decoded} (hd : h.decode? w = some d) :=
    ((disassembly_agrees h rfl w).2 d hd).1
  have hbranch : h.decode? 0xffd11ee3#32 =
      some ⟨.branch .ne, .b 0x63#7 0b001#3 2#5 29#5 0xffe#12⟩ := by decide
  obtain ⟨htext, hnext⟩ := (disassembly_agrees h rfl 0xffd11ee3#32).2 _ hbranch
  obtain ⟨c, hc, htarget⟩ := hnext 0x7ffffffc (by decide) ({} : WordMemory)
  refine ⟨rfl, hdata.trans (by decide), (hline _ rfl).trans (by decide),
    (hline _ rfl).trans (by decide), (hline _ rfl).trans (by decide),
    (hline _ rfl).trans (by decide), (hline _ rfl).trans (by decide),
    (hline _ rfl).trans (by decide), (hline _ rfl).trans (by decide),
    htext.trans (by decide), c, hc, htarget.trans (by decide)⟩

end HomeComputer
