/-
Which bytes there are.

Looking goes by words: a look at a byte finds whatever region holds the start of its word.
Poking goes by bytes.  Outside windows this is all there is to it, and it makes the two
disagree about a store whose region begins or ends inside a word.  The last bytes of such a
word are shown although no region contains them and no poke reaches them, and the first bytes
of another take pokes and are never shown.

Where stores are made of whole words the two agree, and what was poked is what is read.
-/
import HomeComputer.Proofs.Machine.Memory

namespace HomeComputer

namespace AddressMap

variable {δ : Type} {m : AddressMap δ}

/-- An address that no window contains. -/
def OutsideWindows (m : AddressMap δ) (addr : Word) : Prop :=
  ∀ r ∈ m.regions, r.backing.isWindow = true → r.contains addr = false

/-- If no region ends between the start of a word and a byte of it, the word is outside windows
with the byte. -/
theorem OutsideWindows.aligned {addr : Word} (hout : m.OutsideWindows addr)
    (hends : ∀ r ∈ m.regions, r.contains addr.aligned = true → r.contains addr = true) :
    m.OutsideWindows addr.aligned := by
  intro r hr hwindow
  rw [Bool.eq_false_iff]
  intro hin
  have hnot := hout r hr hwindow
  rw [hends r hr hin] at hnot
  cases hnot

theorem exists_contains_iff (hm : m.Sound) (addr : Word) :
    (m.lookup addr).isSome = true ↔ ∃ r ∈ m.regions, r.contains addr = true := by
  rw [Option.isSome_iff_exists]
  refine exists_congr fun r => ?_
  rw [hm.lookup_eq_some_iff]

/-- Outside windows only stores are found. -/
theorem exists_store_of_lookup (hm : m.Sound) {addr : Word} (hout : m.OutsideWindows addr)
    {r : Region} (hlookup : m.lookup addr = some r) : ∃ s, r.backing.store? = some s := by
  obtain ⟨hr, hin⟩ := hm.lookup_eq_some_iff.mp hlookup
  cases hbacking : r.backing with
  | boot s => exact ⟨s, rfl⟩
  | ram s => exact ⟨s, rfl⟩
  | window =>
      have hnot := hout r hr (by rw [hbacking]; rfl)
      rw [hin] at hnot
      cases hnot

section
variable [DeviceAccess δ]

theorem isSome_peek_iff (hm : m.Sound) {addr : Word} (hout : m.OutsideWindows addr.aligned) :
    (m.peek addr).isSome = true ↔ ∃ r ∈ m.regions, r.contains addr.aligned = true := by
  rw [← exists_contains_iff hm]
  unfold peek
  cases hlookup : m.lookup addr.aligned with
  | none => exact Iff.rfl
  | some r =>
      obtain ⟨s, hstore⟩ := exists_store_of_lookup hm hout hlookup
      simp only [hstore]
      exact Iff.rfl

/-- A poke asks for the region of the byte, whatever answers there. -/
theorem isSome_poke?_iff (hm : m.Sound) (addr : Word) (b : Byte) :
    (m.poke? addr b).isSome = true ↔ ∃ r ∈ m.regions, r.contains addr = true := by
  rw [← exists_contains_iff hm]
  unfold poke?
  cases hlookup : m.lookup addr with
  | none => exact Iff.rfl
  | some r =>
      cases hstore : r.backing.store? with
      | none =>
          simp only [hstore]
          exact Iff.rfl
      | some s =>
          simp only [hstore]
          exact Iff.rfl

end

end AddressMap

namespace Machine

variable {δ : Type} [DeviceAccess δ] {m : Machine δ}

theorem readMemory_one (m : Machine δ) (addr : Word) :
    m.readMemory addr 1 = (m.byteAt? addr).toList := by
  unfold readMemory
  rw [readFrom_succ, Word.after?_zero, Option.bind_some]
  cases m.byteAt? addr with
  | none => rfl
  | some b => rfl

/-- What was poked into a store that begins with a word is read. -/
theorem readMemory_of_poke (hm : m.map.Sound) {addr : Word} {r : Region}
    (hlookup : m.map.lookup addr = some r) {s : Store} (hstore : r.backing.store? = some s)
    (hstart : r.start.toNat % 4 = 0) {b : Byte} {map : AddressMap δ}
    (hpoke : m.map.poke? addr b = some map) : { m with map }.readMemory addr 1 = [b] := by
  obtain ⟨hr, hin⟩ := hm.lookup_eq_some_iff.mp hlookup
  obtain ⟨hlane, hoffset⟩ := Region.offset_of_contains hstart hin
  have hword : r.offset addr.aligned % 4 = 0 := by omega
  unfold AddressMap.poke? at hpoke
  simp only [hlookup, hstore, Option.some.injEq, ← hlane] at hpoke
  have hpeek : map.peek addr =
      some ((s.setByte (r.offset addr) b).word (r.offset addr.aligned)) := by
    unfold AddressMap.peek
    rw [← hpoke, AddressMap.lookup_setStore hm hr,
      if_pos (Region.contains_aligned hstart hin)]
    cases hbacking : r.backing with
    | boot _ => rfl
    | ram _ => rfl
    | window =>
        rw [hbacking] at hstore
        cases hstore
  rw [readMemory_one]
  unfold byteAt?
  rw [hpeek, Option.map_some, ← Store.byte_word _ hword addr.lane_lt, ← hoffset,
    Store.byte_setByte, if_pos rfl]
  rfl

/-- **Where there are bytes.**  Outside windows a look finds something exactly where a region
contains the start of the word, and a poke exactly where one contains the byte.  If the region
of a byte begins with a word, and none ends within the word before the byte, these are the
same, and what was poked there is what is read. -/
theorem presence (m : Machine δ) (hm : m.Reachable) (addr : Word)
    (hout : m.map.OutsideWindows addr) :
    (m.map.OutsideWindows addr.aligned →
      ((m.map.peek addr).isSome = true ↔ ∃ r ∈ m.map.regions, r.contains addr.aligned = true)) ∧
    (m.readMemory addr 1 ≠ [] ↔ (m.map.peek addr).isSome = true) ∧
    (∀ b, (m.map.poke? addr b).isSome = true ↔ ∃ r ∈ m.map.regions, r.contains addr = true) ∧
    ((∀ r ∈ m.map.regions, r.contains addr = true → r.start.toNat % 4 = 0) →
      (∀ r ∈ m.map.regions, r.contains addr.aligned = true → r.contains addr = true) →
      ((m.map.peek addr).isSome = true ↔ ∃ r ∈ m.map.regions, r.contains addr = true) ∧
      ∀ b map, m.map.poke? addr b = some map → { m with map }.readMemory addr 1 = [b]) := by
  refine ⟨AddressMap.isSome_peek_iff hm.sound, ?_,
    fun b => AddressMap.isSome_poke?_iff hm.sound addr b, ?_⟩
  · rw [readMemory_one, byteAt?]
    cases m.map.peek addr with
    | none => simp
    | some w => simp
  · intro hstart hends
    refine ⟨?_, ?_⟩
    · rw [AddressMap.isSome_peek_iff hm.sound (hout.aligned hends)]
      constructor
      · rintro ⟨r, hr, hin⟩
        exact ⟨r, hr, hends r hr hin⟩
      · rintro ⟨r, hr, hin⟩
        exact ⟨r, hr, Region.contains_aligned (hstart r hr hin) hin⟩
    · intro b map hpoke
      have hsome : (m.map.lookup addr).isSome = true := by
        rw [AddressMap.exists_contains_iff hm.sound, ← AddressMap.isSome_poke?_iff hm.sound addr b,
          hpoke]
        rfl
      obtain ⟨r, hlookup⟩ := Option.isSome_iff_exists.mp hsome
      obtain ⟨hr, hin⟩ := hm.sound.lookup_eq_some_iff.mp hlookup
      obtain ⟨s, hstore⟩ := AddressMap.exists_store_of_lookup hm.sound hout hlookup
      exact readMemory_of_poke hm.sound hlookup hstore (hstart r hr hin) hpoke

/-- Of a RAM of five bytes the fifth is there on every path: it is shown, takes a poke and is
read back. -/
theorem presence_last_byte :
    let m := fresh { ramSize := 5#32 } ({} : Devices)
    (m.map.peek 0x80000004#32).isSome = true ∧
    (m.map.poke? 0x80000004#32 42#8).isSome = true ∧
    ∀ map, m.map.poke? 0x80000004#32 42#8 = some map →
      { m with map }.readMemory 0x80000004#32 1 = [42#8] := by
  intro m
  have hsize : ({ ramSize := 5#32 } : Config).ramSize ≠ 0#32 := by decide
  have hm : m.Reachable := reachable_fresh hsize ({} : Devices)
  have hout : ∀ r ∈ m.map.regions, r.backing.isWindow = true →
      r.contains 0x80000004#32 = false := by decide +kernel
  have hstart : ∀ r ∈ m.map.regions, r.contains 0x80000004#32 = true →
      r.start.toNat % 4 = 0 := by decide +kernel
  have hends : ∀ r ∈ m.map.regions, r.contains (Word.aligned 0x80000004#32) = true →
      r.contains 0x80000004#32 = true := by decide +kernel
  have hin : ∃ r ∈ m.map.regions, r.contains 0x80000004#32 = true := by decide +kernel
  obtain ⟨-, -, hpoke, hsame⟩ := presence m hm 0x80000004#32 hout
  obtain ⟨hpeek, hread⟩ := hsame hstart hends
  exact ⟨hpeek.mpr hin, (hpoke 42#8).mpr hin, hread 42#8⟩

/-- The byte after it is shown and read, although no region contains it and no poke reaches
it. -/
theorem shown_past_last_byte :
    let m := fresh { ramSize := 5#32 } ({} : Devices)
    Machine.new { ramSize := 5#32 } ({} : Devices) = .ok m ∧
    m.map.OutsideWindows 0x80000005#32 ∧
    (∀ r ∈ m.map.regions, r.contains 0x80000005#32 = false) ∧
    m.map.poke? 0x80000005#32 42#8 = none ∧
    (m.map.peek 0x80000005#32).isSome = true ∧
    m.readMemory 0x80000005#32 1 = [0#8] := by
  intro m
  have hnone : ∀ r ∈ m.map.regions, r.contains 0x80000005#32 = false := by decide +kernel
  refine ⟨new_eq_ok (by decide) _, fun r hr _ => hnone r hr, hnone, rfl, ?_, ?_⟩
  · decide +kernel
  · decide +kernel

end Machine

end HomeComputer
