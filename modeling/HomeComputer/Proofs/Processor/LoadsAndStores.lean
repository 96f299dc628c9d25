/-
Loads and stores, from the instruction down to the bytes.

The instructions only choose an address and a width, and extend what a load answers; that
is proved on any bus, and of any hart that is fitted with the base set, since no other set
claims these words.  What the access then does is a matter of the bus, and on one that
behaves as a memory it is `Access.loaded_load` and `Access.stored_store`.
`loads_and_stores` puts the two together.
-/
import HomeComputer.Proofs.Isa.Table
import HomeComputer.Proofs.Memory.Checked
import HomeComputer.Proofs.Processor.Completion

namespace HomeComputer

/-! ### Decoding -/

theorem Manual.Loads.opcode_eq {w : Word} {width : Width} {isSigned : Bool}
    (h : Manual.Loads w width isSigned) : Manual.opcode w = 0x03 := by
  cases h <;> assumption

theorem Manual.Stores.opcode_eq {w : Word} {width : Width} (h : Manual.Stores w width) :
    Manual.opcode w = 0x23 := by
  cases h <;> assumption

namespace Extension

theorem base?_load {w : Word} (ho : Manual.opcode w = 0x03) :
    base? w = (loadKind? w.funct3).map .load := by
  unfold base?
  rw [Manual.opcode_eq ho]
  rfl

theorem base?_store {w : Word} (ho : Manual.opcode w = 0x23) :
    base? w = (storeWidth? w.funct3).map .store := by
  unfold base?
  rw [Manual.opcode_eq ho]
  rfl

/-- Words that load are in the base set, and are the manual's. -/
theorem loads_of_operation? {e : Extension} {w : Word} {k : LoadKind}
    (h : e.operation? w = some (.load k)) :
    e = .i ∧ ∃ isSigned, Manual.Loads w k.width isSigned := by
  have hencodes := encodes_of_operation? h
  have hopcode : Manual.opcode w = 0x03 := hencodes.manual_opcode
  have hfunct3 : Manual.funct3 w = k.code.toNat := hencodes.manual_funct3 rfl
  refine ⟨eq_i_of_opcode h (fun e h => by cases e <;> cases h), ?_⟩
  cases k with
  | b => exact ⟨_, .lb hopcode hfunct3⟩
  | h => exact ⟨_, .lh hopcode hfunct3⟩
  | w => exact ⟨_, .lw hopcode hfunct3⟩
  | bu => exact ⟨_, .lbu hopcode hfunct3⟩
  | hu => exact ⟨_, .lhu hopcode hfunct3⟩

/-- Words that store are too. -/
theorem stores_of_operation? {e : Extension} {w : Word} {width : Width}
    (h : e.operation? w = some (.store width)) : e = .i ∧ Manual.Stores w width := by
  have hencodes := encodes_of_operation? h
  have hopcode : Manual.opcode w = 0x23 := hencodes.manual_opcode
  have hfunct3 : Manual.funct3 w = width.code.toNat := hencodes.manual_funct3 rfl
  refine ⟨eq_i_of_opcode h (fun e h => by cases e <;> cases h), ?_⟩
  cases width with
  | byte => exact .sb hopcode hfunct3
  | half => exact .sh hopcode hfunct3
  | word => exact .sw hopcode hfunct3

end Extension

/-! ### Extension -/

namespace LoadKind

def isSigned : LoadKind → Bool
  | b | h => true
  | w | bu | hu => false

/-- The sign of a number of the given width, filled in above it. -/
theorem signExtend_eq_extended (v : Word) (width : Width)
    (hv : v.toNat < 2 ^ (8 * width.bytes)) :
    (v.setWidth (8 * width.bytes)).signExtend 32 =
      BitVec.ofInt 32 (Manual.extended width true v.toNat) := by
  have hpos := width.bytes_pos
  have hle := width.bytes_le
  have hpow : 2 ^ (8 * width.bytes) = 2 * 2 ^ (8 * width.bytes - 1) := by
    rw [← Nat.pow_succ', Nat.succ_eq_add_one, Nat.sub_add_cancel (by omega)]
  have hvalue : ((v.setWidth (8 * width.bytes)).signExtend 32).toInt =
      Manual.extended width true v.toNat := by
    rw [BitVec.toInt_signExtend_of_le (by omega), BitVec.toInt_eq_toNat_cond,
      BitVec.toNat_setWidth, Nat.mod_eq_of_lt hv]
    unfold Manual.extended
    by_cases hsign : 2 ^ (8 * width.bytes - 1) ≤ v.toNat
    · rw [if_neg (by omega), if_pos ⟨rfl, hsign⟩]
      push_cast
      rfl
    · rw [if_pos (by omega), if_neg (fun h => hsign h.2)]
  rw [← hvalue, BitVec.ofInt_toInt]

/-- A load extends the number that it was answered as the manual says. -/
theorem extend_eq_extended (k : LoadKind) {v : Word} (hv : v.toNat < 2 ^ (8 * k.width.bytes)) :
    k.extend v = BitVec.ofInt 32 (Manual.extended k.width k.isSigned v.toNat) := by
  cases k with
  | b => exact signExtend_eq_extended v .byte hv
  | h => exact signExtend_eq_extended v .half hv
  | w | bu | hu => simp [extend, Manual.extended, isSigned]

end LoadKind

namespace Hart

variable {β : Type}

/-! ### What a word does -/

/-- Where the word `w` loads from. -/
def loadAddress (h : Hart) (w : Word) : Word :=
  BitVec.ofInt 32 (h.signed (Manual.rs1 w) + Manual.immI w)

/-- Where the word `w` stores to. -/
def storeAddress (h : Hart) (w : Word) : Word :=
  BitVec.ofInt 32 (h.signed (Manual.rs1 w) + Manual.immS w)

/-- What the word `w` stores. -/
def storeValue (h : Hart) (w : Word) : Word := BitVec.ofInt 32 (h.signed (Manual.rs2 w))

section

variable [Bus β] {h : Hart} {w : Word}

theorem loadAddress_eq (h : Hart) (w : Word) :
    h.loadAddress w = h.registers.get w.rs1 + signedImmediate (w.bits 20 12) := by
  unfold loadAddress
  rw [signed_rs1, ← Manual.toInt_immI, ← Manual.add_eq_ofInt]

theorem storeAddress_eq (h : Hart) (w : Word) :
    h.storeAddress w = h.registers.get w.rs1 + signedImmediate (w.bits 25 7 ++ w.bits 7 5) := by
  unfold storeAddress
  rw [signed_rs1, ← Manual.toInt_immS, ← Manual.add_eq_ofInt]

/-- A load puts the answer, extended, into the destination. -/
theorem completes_load (hi : Extension.i ∈ h.isa) (ho : Manual.opcode w = 0x03) {n : Nat}
    (hn : Manual.funct3 w = n) {k : LoadKind}
    (hk : Extension.loadKind? (BitVec.ofNat 3 n) = some k) (bus : β) :
    h.Completes w bus
      (some (Manual.extended k.width k.isSigned
        (Access.load bus (h.loadAddress w) k.width).1.toNat)) (h.pc.toNat + 4)
      (Access.load bus (h.loadAddress w) k.width).2 := by
  have hop : Extension.i.operation? w = some (.load k) := by
    show Extension.base? w = _
    rw [Extension.base?_load ho, Manual.funct3_eq hn, hk]
    rfl
  have hextend := k.extend_eq_extended (Access.toNat_load_lt bus (h.loadAddress w) k.width)
  unfold Completes
  rw [performWord_of_claims hi hop, ← following, receive, ← hextend, loadAddress_eq]
  rfl

/-- A store has no result but what it does to the bus. -/
theorem completes_store (hi : Extension.i ∈ h.isa) (ho : Manual.opcode w = 0x23) {n : Nat}
    (hn : Manual.funct3 w = n) {width : Width}
    (hwidth : Extension.storeWidth? (BitVec.ofNat 3 n) = some width) (bus : β) :
    h.Completes w bus none (h.pc.toNat + 4)
      (Access.store bus (h.storeAddress w) (h.storeValue w) width) := by
  have hop : Extension.i.operation? w = some (.store width) := by
    show Extension.base? w = _
    rw [Extension.base?_store ho, Manual.funct3_eq hn, hwidth]
    rfl
  have hvalue : h.storeValue w = h.registers.get w.rs2 := by
    unfold storeValue
    rw [signed_rs2, BitVec.ofInt_toInt]
  unfold Completes
  rw [performWord_of_claims hi hop, ← following, receive, storeAddress_eq, hvalue]
  rfl

theorem completes_of_loads (hi : Extension.i ∈ h.isa) (bus : β) {width : Width}
    {isSigned : Bool} (hl : Manual.Loads w width isSigned) :
    h.Completes w bus
      (some (Manual.extended width isSigned
        (Access.load bus (h.loadAddress w) width).1.toNat)) (h.pc.toNat + 4)
      (Access.load bus (h.loadAddress w) width).2 := by
  cases hl with
  | lb ho hn => exact completes_load (k := .b) hi ho hn rfl bus
  | lh ho hn => exact completes_load (k := .h) hi ho hn rfl bus
  | lw ho hn => exact completes_load (k := .w) hi ho hn rfl bus
  | lbu ho hn => exact completes_load (k := .bu) hi ho hn rfl bus
  | lhu ho hn => exact completes_load (k := .hu) hi ho hn rfl bus

theorem completes_of_stores (hi : Extension.i ∈ h.isa) (bus : β) {width : Width}
    (hs : Manual.Stores w width) :
    h.Completes w bus none (h.pc.toNat + 4)
      (Access.store bus (h.storeAddress w) (h.storeValue w) width) := by
  cases hs with
  | sb ho hn => exact completes_store hi ho hn rfl bus
  | sh ho hn => exact completes_store hi ho hn rfl bus
  | sw ho hn => exact completes_store hi ho hn rfl bus

end

/-! ### What a step does -/

/-- **Loads and stores move bytes of a little-endian memory.**  An access of any width to any
address, carried out where the alignment policy puts it, answers or replaces exactly the
bytes of its range, asks each word of the range once, and stays within the range of every
operation it is made of.  A step of a load or store instruction is such an access, at the
address that its fields name, and a load extends what it was answered by its sign or by
zeros. -/
theorem loads_and_stores [Bus β] [MemoryBus β] (bus : Transcript β) (width : Width) :
    (∀ addr, Access.Loaded bus ((Bus.alignment bus).start addr width) width
      (Access.load bus addr width).1 (Access.load bus addr width).2) ∧
    (∀ addr value, Access.Stored bus ((Bus.alignment bus).start addr width) value width
      (Access.store bus addr value width)) ∧
    (∀ addr, Checked.load bus addr width = some (Access.load bus addr width)) ∧
    (∀ addr value, Checked.store bus addr value width =
      some (Access.store bus addr value width)) ∧
    ∀ (h : Hart) (raw : Word) (fetched : Transcript β), Extension.i ∈ h.isa →
      Access.fetch bus h.pc = (raw, fetched) →
      (∀ isSigned, Manual.Loads raw width isSigned → ∃ v : Word,
        Access.Loaded fetched ((Bus.alignment fetched).start (h.loadAddress raw) width) width v
          (h.step bus).2 ∧
        h.Executed raw (some (Manual.extended width isSigned v.toNat)) (h.pc.toNat + 4)
          (h.step bus).1) ∧
      (Manual.Stores raw width →
        Access.Stored fetched ((Bus.alignment fetched).start (h.storeAddress raw) width)
          (h.storeValue raw) width (h.step bus).2 ∧
        h.Executed raw none (h.pc.toNat + 4) (h.step bus).1) := by
  refine ⟨fun addr => Access.loaded_load bus addr width,
    fun addr value => Access.stored_store bus addr value width,
    fun addr => Checked.load_eq bus addr width,
    fun addr value => Checked.store_eq bus addr value width, ?_⟩
  intro h raw fetched hisa hfetch
  have hraw : (Access.fetch bus h.pc).1 = raw := by rw [hfetch]
  have hfetched : (Access.fetch bus h.pc).2 = fetched := by rw [hfetch]
  subst hraw hfetched
  refine ⟨fun isSigned hl => ?_, fun hs => ?_⟩
  · obtain ⟨hexecuted, hbus⟩ :=
      executed_of_completes (completes_of_loads hisa (Access.fetch bus h.pc).2 hl)
    refine ⟨_, ?_, hexecuted⟩
    rw [hbus]
    exact Access.loaded_load _ _ width
  · obtain ⟨hexecuted, hbus⟩ :=
      executed_of_completes (completes_of_stores hisa (Access.fetch bus h.pc).2 hs)
    rw [hbus]
    exact ⟨Access.stored_store _ _ _ width, hexecuted⟩

/-- `lh a0, -1(zero)` takes one byte from the end of the address space and one from its
beginning, where the sign is; `sh a0, -1(zero)` puts one at either place. -/
theorem loads_and_stores_wrapping :
    let words : Word → Option Word := fun a =>
      if a = 0x100#32 then some 0xfff01503#32 else if a = 0x104#32 then some 0xfea01fa3#32
      else if a = 0xfffffffc#32 then some 0x34000000#32 else if a = 0#32 then some 0x000000f2#32
      else none
    let bus : Transcript FixedMemory := { bus := { words, alignment := .split } }
    let loading : Hart := { pc := 0x100#32 }
    let storing : Hart := { pc := 0x104#32, registers := Registers.zero.set 10#5 0xbeef#32 }
    (Extension.i ∈ loading.isa ∧ (loading.step bus).1.registers.get 10#5 = 0xfffff234#32 ∧
      (loading.step bus).2.log = [.read 0x100#32, .read 0xfffffffc#32, .read 0#32]) ∧
    Extension.i ∈ storing.isa ∧
      MemoryBus.byte? (storing.step bus).2 0xffffffff#32 = some 0xef#8 ∧
      MemoryBus.byte? (storing.step bus).2 0#32 = some 0xbe#8 := by
  intro words bus loading storing
  have hbase : Extension.i ∈ loading.isa ∧ Extension.i ∈ storing.isa := by decide
  refine ⟨⟨hbase.1, ?_⟩, hbase.2, ?_⟩
  · have hraw : (Access.fetch bus loading.pc).1 = 0xfff01503#32 := by decide +kernel
    have hlh : Manual.Loads (Access.fetch bus loading.pc).1 .half true :=
      .lh (by rw [hraw]; decide) (by rw [hraw]; decide)
    obtain ⟨v, hloaded, hexecuted⟩ := ((loads_and_stores bus .half).2.2.2.2 loading
      (Access.fetch bus loading.pc).1 (Access.fetch bus loading.pc).2 hbase.1 rfl).1 true hlh
    have hv : v.toNat = 0xf234 := hloaded.value.trans (by decide +kernel)
    have hrd : (10#5 : Reg).toNat = Manual.rd (Access.fetch bus loading.pc).1 := by
      rw [hraw]
      decide
    refine ⟨?_, hloaded.log.trans (by decide +kernel)⟩
    rw [hexecuted.destination _ rfl 10#5 hrd (by decide), hv]
    decide
  · have hraw : (Access.fetch bus storing.pc).1 = 0xfea01fa3#32 := by decide +kernel
    have hsh : Manual.Stores (Access.fetch bus storing.pc).1 .half :=
      .sh (by rw [hraw]; decide) (by rw [hraw]; decide)
    have hstored := (((loads_and_stores bus .half).2.2.2.2 storing
      (Access.fetch bus storing.pc).1 (Access.fetch bus storing.pc).2 hbase.2 rfl).2 hsh).1
    have hlast : Word.addressFrom ((Bus.alignment (Access.fetch bus storing.pc).2).start
        (storing.storeAddress (Access.fetch bus storing.pc).1) .half) 0 = 0xffffffff#32 := by
      decide +kernel
    have hfirst : Word.addressFrom ((Bus.alignment (Access.fetch bus storing.pc).2).start
        (storing.storeAddress (Access.fetch bus storing.pc).1) .half) 1 = 0#32 := by
      decide +kernel
    have hlow := hstored.written 0 (by decide)
    have hhigh := hstored.written 1 (by decide)
    rw [hlast] at hlow
    rw [hfirst] at hhigh
    exact ⟨hlow.trans (by decide +kernel), hhigh.trans (by decide +kernel)⟩

end Hart

end HomeComputer
