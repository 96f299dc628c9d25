/-
What a full hart does with a word, in one table.

A full hart asks four sets in turn.  No two of them claim the same word, so their answers can be
put side by side and looked up by operation code (`table?`).  `decodeBy_full` says that this is
how the full hart decodes.

Read the other way, each operation asks its words for certain codes (`Operation.Encodes`), and
only words that have them do it.  Where two words do the same, that leaves the fields to tell
them apart.
-/
import HomeComputer.Proofs.Isa.Decoding
import HomeComputer.Proofs.Isa.Integers

namespace HomeComputer

/-! ### The table -/

namespace Extension

/-- What a word does on a full hart, by its operation code. -/
def table? (w : Word) : Option Operation :=
  match w.opcode with
  | 0x37 => some .lui
  | 0x17 => some .auipc
  | 0x6f => some .jal
  | 0x67 => if w.funct3 = 0#3 then some .jalr else none
  | 0x63 => (condition? w.funct3).map .branch
  | 0x03 => (loadKind? w.funct3).map .load
  | 0x23 => (storeWidth? w.funct3).map .store
  | 0x13 => (aluImm? w.funct3 w.funct7).map .aluImm
  | 0x33 =>
      if w.funct7 = 1#7 then some (.mulDiv (mulDiv w.funct3)) else register? w.funct3 w.funct7
  | 0x0f =>
      if w.funct3 = 0#3 then some .fence else if w.funct3 = 1#3 then some .fenceI else none
  | 0x73 =>
      if w = ecallWord then some .ecall
      else if w = ebreakWord then some .ebreak
      else if w = mretWord then some .mret
      else csr? w.funct3
  | _ => none

/-- The first of the four sets that has an answer gives it. -/
theorem findSome?_full {α : Type} (f : Extension → Option α) :
    full.findSome? f = (f i).or ((f m).or ((f zicsr).or (f zifencei))) := by
  simp only [full, List.findSome?_cons, List.findSome?_nil]
  cases f i <;> cases f m <;> cases f zicsr <;> cases f zifencei <;> rfl

/-- The base set leaves the code of multiplication alone. -/
theorem register?_mulDiv (funct3 : BitVec 3) : register? funct3 1#7 = none := rfl

theorem findSome?_operation? (w : Word) : full.findSome? (·.operation? w) = table? w := by
  rw [findSome?_full]
  simp only [operation?, base?]
  fun_cases table? w <;> simp_all [register?_mulDiv]

/-- Decoding is the table, with the fields that go with the operation found there. -/
theorem decodeBy_full (w : Word) :
    decodeBy full w = (table? w).map fun op => ⟨op, Instruction.ofWord op.format w⟩ := by
  rw [← findSome?_operation?, List.map_findSome?]
  rfl

end Extension

/-! ### Codes of the families -/

def Condition.code : Condition → BitVec 3
  | eq => 0b000 | ne => 0b001 | lt => 0b100 | ge => 0b101 | ltu => 0b110 | geu => 0b111

def LoadKind.code : LoadKind → BitVec 3
  | b => 0b000 | h => 0b001 | w => 0b010 | bu => 0b100 | hu => 0b101

def Width.code : Width → BitVec 3
  | byte => 0b000 | half => 0b001 | word => 0b010

def Alu.code : Alu → BitVec 3
  | add => 0b000 | sll => 0b001 | slt => 0b010 | sltu => 0b011 | xor => 0b100
  | srl | sra => 0b101 | or => 0b110 | and => 0b111

def MulDiv.code : MulDiv → BitVec 3
  | mul => 0b000 | mulh => 0b001 | mulhsu => 0b010 | mulhu => 0b011
  | div => 0b100 | divu => 0b101 | rem => 0b110 | remu => 0b111

def CsrAction.code (immediate : Bool) : CsrAction → BitVec 3
  | write => if immediate then 0b101 else 0b001
  | set => if immediate then 0b110 else 0b010
  | clear => if immediate then 0b111 else 0b011

namespace Operation

/-- The operation code of the words that do this. -/
def opcode : Operation → BitVec 7
  | lui => 0x37
  | auipc => 0x17
  | jal => 0x6f
  | jalr => 0x67
  | branch _ => 0x63
  | load _ => 0x03
  | store _ => 0x23
  | aluImm _ => 0x13
  | alu _ | sub | mulDiv _ => 0x33
  | fence | fenceI => 0x0f
  | ecall | ebreak | mret | csr _ _ => 0x73

/-- The smaller function code, where it is none of the fields. -/
def funct3? : Operation → Option (BitVec 3)
  | lui | auipc | jal => none
  | jalr | sub | fence | ecall | ebreak | mret => some 0b000
  | fenceI => some 0b001
  | branch c => some c.code
  | load k => some k.code
  | store w => some w.code
  | aluImm o | alu o => some o.code
  | mulDiv o => some o.code
  | csr a immediate => some (a.code immediate)

/-- The larger function code, where it is none of the fields; of immediate arithmetic only
shifts have one. -/
def funct7? : Operation → Option (BitVec 7)
  | alu .sra | aluImm .sra | sub => some 0x20
  | aluImm .sll | aluImm .srl | alu _ => some 0
  | mulDiv _ => some 1
  | _ => none

/-- The word itself, where there is only one. -/
def word? : Operation → Option Word
  | ecall => some ecallWord
  | ebreak => some ebreakWord
  | mret => some mretWord
  | _ => none

/-- The word has the codes that the operation asks for. -/
structure Encodes (op : Operation) (w : Word) : Prop where
  opcode : w.opcode = op.opcode
  funct3 : w.funct3 = op.funct3?.getD w.funct3
  funct7 : w.funct7 = op.funct7?.getD w.funct7
  word : w = op.word?.getD w

namespace Encodes

variable {op : Operation} {w w' : Word}

theorem opcode_eq (he : op.Encodes w) (he' : op.Encodes w') : w.opcode = w'.opcode :=
  he.opcode.trans he'.opcode.symm

theorem funct3_eq (he : op.Encodes w) (he' : op.Encodes w') {f : BitVec 3}
    (hf : op.funct3? = some f) : w.funct3 = w'.funct3 := by
  rw [he.funct3, he'.funct3, hf]
  rfl

theorem funct7_eq (he : op.Encodes w) (he' : op.Encodes w') {g : BitVec 7}
    (hg : op.funct7? = some g) : w.funct7 = w'.funct7 := by
  rw [he.funct7, he'.funct7, hg]
  rfl

theorem word_eq (he : op.Encodes w) (he' : op.Encodes w') {v : Word} (hv : op.word? = some v) :
    w = w' := by
  rw [he.word, he'.word, hv]
  rfl

/-- The manual finds the codes in the same places. -/
theorem manual_opcode (he : op.Encodes w) : Manual.opcode w = op.opcode.toNat := by
  rw [← he.opcode]
  exact (Manual.toNat_bits w 0 7).symm

theorem manual_funct3 (he : op.Encodes w) {f : BitVec 3} (hf : op.funct3? = some f) :
    Manual.funct3 w = f.toNat := by
  have hfunct3 : w.funct3 = f := by
    rw [he.funct3, hf]
    rfl
  rw [← hfunct3]
  exact (Manual.toNat_bits w 12 3).symm

end Encodes

end Operation

/-! ### From operations back to codes -/

namespace Extension

section

variable {f : BitVec 3} {g : BitVec 7} {op : Operation}

theorem code_of_condition? {c : Condition} (h : condition? f = some c) : f = c.code := by
  unfold condition? at h
  split at h <;> cases h <;> rfl

theorem code_of_loadKind? {k : LoadKind} (h : loadKind? f = some k) : f = k.code := by
  unfold loadKind? at h
  split at h <;> cases h <;> rfl

theorem code_of_storeWidth? {w : Width} (h : storeWidth? f = some w) : f = w.code := by
  unfold storeWidth? at h
  split at h <;> cases h <;> rfl

theorem code_mulDiv (f : BitVec 3) : (mulDiv f).code = f := by
  revert f
  decide

theorem codes_of_aluImm? {o : Alu} (h : aluImm? f g = some o) :
    f = o.code ∧ g = (Operation.aluImm o).funct7?.getD g := by
  unfold aluImm? at h
  split at h
  -- The shifts, to the left and then to the right.
  case h_7 =>
    split at h
    · cases h
      exact ⟨rfl, ‹g = 0#7›⟩
    · cases h
  case h_8 =>
    have hf : f = 0b101#3 := by
      revert f
      decide
    split at h
    · cases h
      exact ⟨hf, ‹g = 0#7›⟩
    · split at h
      · cases h
        exact ⟨hf, ‹g = 0x20#7›⟩
      · cases h
  all_goals
    cases h
    exact ⟨rfl, rfl⟩

theorem codes_of_register? (h : register? f g = some op) :
    op.opcode = 0x33#7 ∧ op.funct3? = some f ∧ op.funct7? = some g ∧ op.word? = none := by
  have hzero : ∀ f : BitVec 3, (register? f 0#7).all fun op =>
      op.opcode = 0x33#7 ∧ op.funct3? = some f ∧ op.funct7? = some 0#7 ∧ op.word? = none := by
    decide
  have hother : ∀ f : BitVec 3, (register? f 0x20#7).all fun op =>
      op.opcode = 0x33#7 ∧ op.funct3? = some f ∧ op.funct7? = some 0x20#7 ∧ op.word? = none := by
    decide
  by_cases hg : g = 0#7
  · subst hg
    simpa [h] using hzero f
  · by_cases hg' : g = 0x20#7
    · subst hg'
      simpa [h] using hother f
    · unfold register? at h
      rw [if_neg hg, if_neg hg'] at h
      cases h

theorem code_of_csr? (h : csr? f = some op) :
    op.opcode = 0x73#7 ∧ op.funct3? = some f ∧ op.funct7? = none ∧ op.word? = none := by
  unfold csr? at h
  split at h <;> cases h <;> exact ⟨rfl, rfl, rfl, rfl⟩

end

/-- What does an operation has the codes of it. -/
theorem encodes_of_table? {w : Word} {op : Operation} (h : table? w = some op) :
    op.Encodes w := by
  revert h
  fun_cases table? w with
  | case1 ho | case2 ho | case3 ho =>
      rintro ⟨⟩
      exact ⟨ho, rfl, rfl, rfl⟩
  | case4 ho hf | case12 ho hf | case13 ho _ hf =>
      rintro ⟨⟩
      exact ⟨ho, hf, rfl, rfl⟩
  | case6 ho =>
      rw [Option.map_eq_some_iff]
      rintro ⟨c, hc, rfl⟩
      exact ⟨ho, code_of_condition? hc, rfl, rfl⟩
  | case7 ho =>
      rw [Option.map_eq_some_iff]
      rintro ⟨k, hk, rfl⟩
      exact ⟨ho, code_of_loadKind? hk, rfl, rfl⟩
  | case8 ho =>
      rw [Option.map_eq_some_iff]
      rintro ⟨width, hw, rfl⟩
      exact ⟨ho, code_of_storeWidth? hw, rfl, rfl⟩
  | case9 ho =>
      rw [Option.map_eq_some_iff]
      rintro ⟨o, h, rfl⟩
      exact ⟨ho, (codes_of_aluImm? h).1, (codes_of_aluImm? h).2, rfl⟩
  | case10 ho hg =>
      rintro ⟨⟩
      exact ⟨ho, (code_mulDiv _).symm, hg, rfl⟩
  | case11 ho =>
      intro h
      obtain ⟨hop, hf, hg, hword⟩ := codes_of_register? h
      exact ⟨ho.trans hop.symm, by rw [hf]; rfl, by rw [hg]; rfl, by rw [hword]; rfl⟩
  | case15 ho hw | case16 ho _ hw | case17 ho _ _ hw =>
      rintro ⟨⟩
      exact ⟨ho, by rw [hw]; rfl, rfl, hw⟩
  | case18 ho =>
      intro h
      obtain ⟨hop, hf, hg, hword⟩ := code_of_csr? h
      exact ⟨ho.trans hop.symm, by rw [hf]; rfl, by rw [hg]; rfl, by rw [hword]; rfl⟩
  | case5 | case14 | case19 =>
      rintro ⟨⟩

/-- So do the words that a single set claims for it. -/
theorem encodes_of_operation? {e : Extension} {w : Word} {op : Operation}
    (h : e.operation? w = some op) : op.Encodes w := by
  have he : e ∈ full := by cases e <;> decide
  have hdecoded := decodeBy_of_claims he h
  rw [decodeBy_full, Option.map_eq_some_iff] at hdecoded
  obtain ⟨op', htable, hop⟩ := hdecoded
  obtain rfl : op' = op := congrArg Decoded.operation hop
  exact encodes_of_table? htable

/-- An operation whose code is none of the smaller sets' own is in the base set. -/
theorem eq_i_of_opcode {e : Extension} {w : Word} {op : Operation}
    (h : e.operation? w = some op) (hop : ∀ e : Extension, op.opcode ≠ e.ownOpcode) : e = i := by
  by_contra he
  exact hop e ((encodes_of_operation? h).opcode.symm.trans (opcode_of_other he h))

end Extension

end HomeComputer
