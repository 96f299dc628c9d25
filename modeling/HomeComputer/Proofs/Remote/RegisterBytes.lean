/-
The bytes that stand for all registers.

The server leaves the bytes of all registers to a codec, so what it says of them holds as far as
the codec does what a debugger expects.  A `Lawful` one writes `CoreRegisters.bytes` and reads
nothing else; these are exactly the runs of 132 bytes (`exists_bytes`).  The codec `littleEndian`
is lawful.
-/
import HomeComputer.Proofs.Memory.StoreBytes
import HomeComputer.Remote.LittleEndian
import HomeComputer.Remote.Server

namespace HomeComputer

/-! ### Laws of a codec -/

/-- The codec writes every register, in the order of their numbers and each with its low byte
first, and reads what is written like this and nothing else. -/
structure RegisterCodec.Lawful [RegisterCodec] : Prop where
  serialize_eq : ∀ r : CoreRegisters, serialize r = r.bytes.map some
  deserialize_eq_some_iff : ∀ (data : List Byte) (r : CoreRegisters),
    deserialize data = some r ↔ data = r.bytes

/-- An answer of bytes that are all known. -/
theorem Response.registers_map_some (bytes : List Byte) :
    registers (bytes.map some) = data bytes := by
  have hdigits : (bytes.map some).flatMap digits = Hex.encode bytes := by
    induction bytes with
    | nil => rfl
    | cons b bytes ih =>
        rw [List.map_cons, List.flatMap_cons, ih]
        rfl
  unfold registers
  rw [hdigits]
  rfl

theorem RegisterCodec.Lawful.dispatch_readRegisters [RegisterCodec] (h : RegisterCodec.Lawful)
    {δ : Type} [DeviceAccess δ] (m : Machine δ) :
    m.dispatch .readRegisters = (.data m.coreRegisters.bytes, m) := by
  simp only [Machine.dispatch, h.serialize_eq, Response.registers_map_some]

/-! ### Words and registers -/

theorem Word.length_flatMap_bytes (ws : List Word) :
    (ws.flatMap bytes).length = 4 * ws.length := by
  induction ws with
  | nil => rfl
  | cons w ws ih =>
      rw [List.flatMap_cons, List.length_append, ih, List.length_cons]
      show 4 + 4 * ws.length = _
      omega

namespace CoreRegisters

theorem length_words (r : CoreRegisters) : r.words.length = 33 := by
  unfold words
  rw [List.length_append, Vector.length_toList]
  rfl

theorem length_bytes (r : CoreRegisters) : r.bytes.length = 132 := by
  unfold bytes
  rw [Word.length_flatMap_bytes, length_words]

theorem ofWords?_eq_some_iff {ws : List Word} {r : CoreRegisters} :
    ofWords? ws = some r ↔ ws = r.words := by
  unfold ofWords?
  constructor
  · intro h
    split at h
    · next hlength =>
        obtain rfl := Option.some.inj h
        show ws = ws.take 32 ++ [ws[32]]
        rw [List.take_concat_get', List.take_of_length_le (by omega)]
    · cases h
  · rintro rfl
    have hgeneral : r.words.take 32 = r.general.toList := List.take_left' r.general.length_toList
    have hpc (hlt : 32 < r.words.length) : r.words[32] = r.pc :=
      List.getElem_concat_length r.general.length_toList.symm hlt
    rw [dif_pos r.length_words]
    refine congrArg some ((mk.injEq ..).mpr ⟨Vector.toList_inj.mp hgeneral, hpc _⟩)

end CoreRegisters

namespace RegisterCodec

theorem words?_eq_some_iff {data : List Byte} {ws : List Word} :
    words? data = some ws ↔ data = ws.flatMap Word.bytes := by
  constructor
  · intro h
    induction data using words?.induct generalizing ws with
    | case1 =>
        obtain rfl := Option.some.inj h
        rfl
    | case2 b₀ b₁ b₂ b₃ rest ih =>
        obtain ⟨rest', hrest, rfl⟩ := Option.map_eq_some_iff.mp h
        rw [List.flatMap_cons, Word.bytes_ofBytes, ← ih hrest]
        rfl
    | case3 data hnil hcons =>
        rw [words?.eq_3 data hnil hcons] at h
        cases h
  · rintro rfl
    induction ws with
    | nil => rfl
    | cons w ws ih =>
        show (words? (ws.flatMap Word.bytes)).map _ = _
        rw [ih, Option.map_some, Word.ofBytes_bytes]

theorem lawful_littleEndian : Lawful where
  serialize_eq _ := rfl
  deserialize_eq_some_iff data r := by
    show (words? data).bind CoreRegisters.ofWords? = some r ↔ _
    rw [Option.bind_eq_some_iff]
    constructor
    · rintro ⟨ws, hws, hr⟩
      rw [words?_eq_some_iff.mp hws, CoreRegisters.ofWords?_eq_some_iff.mp hr]
      rfl
    · rintro rfl
      exact ⟨r.words, words?_eq_some_iff.mpr rfl, CoreRegisters.ofWords?_eq_some_iff.mpr rfl⟩

end RegisterCodec

end HomeComputer
