/-
Loads and stores move bytes.

On a bus that behaves as a memory of words, a load answers the number that the bytes of its
range spell and a store replaces exactly those bytes (`Loaded`, `Stored`).  The range starts
where the alignment policy puts it and wraps round at the end of the address space.

Everything rests on where a byte of the range is.  The range starts in some lane of a word;
what fits is in that word, at the lanes from there on, and the rest is in the next word, at
the lanes from 0 on.  A load shifts either part to its place and a store picks the same lanes,
so both are compared with the range byte by byte, and the shifts become differences of byte
numbers.
-/
import HomeComputer.Memory.Access
import HomeComputer.Proofs.Memory.ByteMemory

namespace HomeComputer

/-! ### The range of an access -/

theorem Width.mask_eq (w : Width) : w.mask = BitVec.ofNat 32 (2 ^ (8 * w.bytes) - 1) := by
  cases w <;> rfl

theorem Width.bytes_pos (w : Width) : 0 < w.bytes := by
  cases w <;> decide

theorem Width.bytes_le (w : Width) : w.bytes ≤ 4 := by
  cases w <;> decide

/-- The number of the first byte of an access of width `w` to `addr`. -/
def Alignment.start (p : Alignment) (addr : Word) (w : Width) : Nat :=
  match p with
  | .split => addr.toNat
  | .force => addr.toNat / w.bytes * w.bytes

theorem Alignment.toNat_place (p : Alignment) (addr : Word) (w : Width) :
    (p.place addr w).toNat = p.start addr w := by
  cases p with
  | split => rfl
  | force =>
      unfold place start
      cases w with
      | byte => exact Word.toNat_clear addr 0
      | half => exact Word.toNat_clear addr 1
      | word => exact Word.toNat_clear addr 2

namespace Access

/-- The words that the bytes of an access from `a` on are in, each once, in their order. -/
def touched (a : Nat) (w : Width) : List Word :=
  ((List.range w.bytes).map fun i => (Word.addressFrom a i).aligned).eraseDups

/-- A range that fits into its first word touches no other. -/
theorem touched_of_fits {a : Word} {w : Width} (hfits : a.lane + w.bytes ≤ 4) :
    touched a.toNat w = [a.aligned] := by
  have hword : ∀ i < w.bytes, (Word.addressFrom a.toNat i).aligned = a.aligned :=
    fun i hi => (a.addressFrom_of_lt (by omega)).1
  have hmap : (List.range w.bytes).map (fun i => (Word.addressFrom a.toNat i).aligned) =
      (List.range w.bytes).map fun _ => a.aligned :=
    List.map_congr_left fun i hi => hword i (List.mem_range.mp hi)
  unfold touched
  rw [hmap]
  cases w <;> simp [Width.bytes, List.range_succ, List.eraseDups_cons]

/-- A range that does not goes on in the next word. -/
theorem touched_of_exceeds {a : Word} {w : Width} (hexceeds : 4 < a.lane + w.bytes) :
    touched a.toNat w = [a.aligned, a.aligned + 4#32] := by
  have hlane := a.lane_lt
  have hmap : (List.range w.bytes).map (fun i => (Word.addressFrom a.toNat i).aligned) =
      (List.range w.bytes).map fun i =>
        if a.lane + i < 4 then a.aligned else a.aligned + 4#32 := by
    refine List.map_congr_left fun i hi => ?_
    have hi' := List.mem_range.mp hi
    have hle := w.bytes_le
    by_cases hfirst : a.lane + i < 4
    · rw [if_pos hfirst]
      exact (a.addressFrom_of_lt hfirst).1
    · rw [if_neg hfirst]
      exact (a.addressFrom_of_le (by omega) (by omega)).1
  have hne := a.next_ne_aligned
  unfold touched
  rw [hmap]
  cases w with
  | byte => exact absurd hexceeds (by simp only [Width.bytes]; omega)
  | half =>
      have hlane3 : a.lane = 3 := by simp only [Width.bytes] at hexceeds; omega
      simp [Width.bytes, List.range_succ, List.eraseDups_cons, hlane3, hne]
  | word =>
      have hlanes : a.lane = 1 ∨ a.lane = 2 ∨ a.lane = 3 := by
        simp only [Width.bytes] at hexceeds
        omega
      rcases hlanes with h | h | h <;>
        simp [Width.bytes, List.range_succ, List.eraseDups_cons, h, hne]

/-! ### Loads -/

section

variable {β : Type} [Bus β]

theorem load_of_fits (bus : β) (addr : Word) (w : Width) {a : Word}
    (ha : (Bus.alignment bus).place addr w = a) (hfits : a.lane + w.bytes ≤ 4) :
    load bus addr w =
      ((readWord bus a.aligned).1 >>> (8 * a.lane) &&& w.mask, (readWord bus a.aligned).2) := by
  simp only [load, ha]
  rw [if_neg (by omega)]

theorem load_of_exceeds (bus : β) (addr : Word) (w : Width) {a : Word}
    (ha : (Bus.alignment bus).place addr w = a) (hexceeds : 4 < a.lane + w.bytes) :
    load bus addr w =
      (((readWord bus a.aligned).1 >>> (8 * a.lane) |||
          (readWord (readWord bus a.aligned).2 (a.aligned + 4#32)).1 <<< (8 * (4 - a.lane))) &&&
        w.mask,
        (readWord (readWord bus a.aligned).2 (a.aligned + 4#32)).2) := by
  simp only [load, ha]
  rw [if_pos hexceeds]

/-- Masking a value leaves the number that its low bytes spell. -/
theorem toNat_and_mask (x : Word) (w : Width) :
    (x &&& w.mask).toNat = ∑ i ∈ Finset.range w.bytes, (x.byte i).toNat * 256 ^ i := by
  have hle := w.bytes_le
  rw [w.mask_eq, Word.toNat_keep x (by omega), Word.sum_bytes, Nat.pow_mul]

theorem toNat_and_mask_lt (value : Word) (w : Width) :
    (value &&& w.mask).toNat < 2 ^ (8 * w.bytes) := by
  have hle := w.bytes_le
  rw [w.mask_eq, Word.toNat_keep value (by omega)]
  exact Nat.mod_lt _ (Nat.two_pow_pos _)

theorem toNat_load_lt (bus : β) (addr : Word) (w : Width) :
    (load bus addr w).1.toNat < 2 ^ (8 * w.bytes) := by
  generalize ha : (Bus.alignment bus).place addr w = a
  by_cases hfits : a.lane + w.bytes ≤ 4
  · rw [load_of_fits bus addr w ha hfits]
    exact toNat_and_mask_lt _ w
  · rw [load_of_exceeds bus addr w ha (by omega)]
    exact toNat_and_mask_lt _ w

/-- The two parts of a load, each shifted to its place, byte by byte. -/
theorem byte_joined (first second : Word) {offset i : Nat} (hoffset : offset < 4) (hi : i < 4) :
    Word.byte (first >>> (8 * offset) ||| second <<< (8 * (4 - offset))) i =
      if offset + i < 4 then first.byte (offset + i) else second.byte (offset + i - 4) := by
  rw [Word.byte_or, Word.byte_ushiftRight]
  by_cases hfirst : offset + i < 4
  · rw [if_pos hfirst, Word.byte_shiftLeft_of_lt second (by omega), BitVec.or_zero]
  · rw [if_neg hfirst, Word.byte_of_le first (by omega),
      Word.byte_shiftLeft_of_le second (by omega) hi, BitVec.zero_or,
      show i - (4 - offset) = offset + i - 4 by omega]

end

section

variable {β : Type} [Bus β] [MemoryBus β]

open MemoryBus

theorem readWord_of_aligned (bus : β) {base : Word} (hbase : base.aligned = base) :
    (readWord bus base).1 = (word? bus base).getD 0#32 := by
  have hanswer := read_answer bus base
  rw [hbase] at hanswer
  unfold readWord
  rw [← hanswer]

theorem word?_readWord (bus : β) (a : Word) : word? (readWord bus a).2 = word? bus :=
  word?_read bus a

/-- The bytes of a range that are in its first word. -/
theorem getD_byte?_first (bus : β) (a : Word) {i : Nat} (hi : a.lane + i < 4) :
    (byte? bus (Word.addressFrom a.toNat i)).getD 0#8 =
      Word.byte ((word? bus a.aligned).getD 0#32) (a.lane + i) := by
  obtain ⟨hword, hlane⟩ := a.addressFrom_of_lt hi
  rw [getD_byte?, hword, hlane]

/-- The bytes of a range that are in the next word. -/
theorem getD_byte?_next (bus : β) (a : Word) {i : Nat} (hi : 4 ≤ a.lane + i)
    (hi' : a.lane + i < 8) :
    (byte? bus (Word.addressFrom a.toNat i)).getD 0#8 =
      Word.byte ((word? bus (a.aligned + 4#32)).getD 0#32) (a.lane + i - 4) := by
  obtain ⟨hword, hlane⟩ := a.addressFrom_of_le hi hi'
  rw [getD_byte?, hword, hlane]

/-- `v` is what a load of the `w.bytes` bytes from `a` on answers, and `after` the bus that it
leaves. -/
structure Loaded (bus : Transcript β) (a : Nat) (w : Width) (v : Word) (after : Transcript β) :
    Prop where
  /-- The bytes spell the answer, low end first; one that is not there counts as 0. -/
  value : v.toNat = ∑ i ∈ Finset.range w.bytes,
    ((byte? bus (Word.addressFrom a i)).getD 0#8).toNat * 256 ^ i
  memory : word? after = word? bus
  /-- Each word of the range was read once, in order, and nothing else was asked. -/
  log : after.log = bus.log ++ (touched a w).map .read

theorem loaded_of_fits (bus : Transcript β) (addr : Word) (w : Width) {a : Word}
    (ha : (Bus.alignment bus).place addr w = a) (hfits : a.lane + w.bytes ≤ 4) :
    Loaded bus a.toNat w (load bus addr w).1 (load bus addr w).2 := by
  rw [load_of_fits bus addr w ha hfits]
  refine ⟨?_, word?_readWord bus _, ?_⟩
  · show (_ &&& w.mask).toNat = _
    rw [toNat_and_mask, readWord_of_aligned bus a.aligned_aligned]
    refine Finset.sum_congr rfl fun i hi => ?_
    have hi' := Finset.mem_range.mp hi
    rw [Word.byte_ushiftRight, getD_byte?_first bus a (by omega)]
  · rw [touched_of_fits hfits]
    rfl

theorem loaded_of_exceeds (bus : Transcript β) (addr : Word) (w : Width) {a : Word}
    (ha : (Bus.alignment bus).place addr w = a) (hexceeds : 4 < a.lane + w.bytes) :
    Loaded bus a.toNat w (load bus addr w).1 (load bus addr w).2 := by
  have hlane := a.lane_lt
  have hle := w.bytes_le
  rw [load_of_exceeds bus addr w ha hexceeds]
  refine ⟨?_, ?_, ?_⟩
  · show (_ &&& w.mask).toNat = _
    rw [toNat_and_mask, readWord_of_aligned bus a.aligned_aligned,
      readWord_of_aligned _ a.aligned_next, word?_readWord]
    refine Finset.sum_congr rfl fun i hi => ?_
    have hi' := Finset.mem_range.mp hi
    rw [byte_joined _ _ hlane (by omega)]
    by_cases hfirst : a.lane + i < 4
    · rw [if_pos hfirst, getD_byte?_first bus a hfirst]
    · rw [if_neg hfirst, getD_byte?_next bus a (by omega) (by omega)]
  · exact (word?_readWord _ _).trans (word?_readWord bus _)
  · rw [touched_of_exceeds hexceeds]
    exact List.append_assoc _ _ _

/-- **A load answers the bytes of its range.** -/
theorem loaded_load (bus : Transcript β) (addr : Word) (w : Width) :
    Loaded bus ((Bus.alignment bus).start addr w) w (load bus addr w).1 (load bus addr w).2 := by
  rw [← Alignment.toNat_place]
  generalize ha : (Bus.alignment bus).place addr w = a
  by_cases hfits : a.lane + w.bytes ≤ 4
  · exact loaded_of_fits bus addr w ha hfits
  · exact loaded_of_exceeds bus addr w ha (by omega)

end

/-! ### Stores -/

section

variable {β : Type} [Bus β]

theorem store_of_fits (bus : β) (addr value : Word) (w : Width) {a : Word}
    (ha : (Bus.alignment bus).place addr w = a) (hfits : a.lane + w.bytes ≤ 4) :
    store bus addr value w = Bus.write bus a.aligned (spread (value &&& w.mask) w a.lane)
      (Lanes.span a.lane w.bytes) := by
  simp only [store, ha]
  rw [if_pos hfits]

theorem store_of_exceeds (bus : β) (addr value : Word) (w : Width) {a : Word}
    (ha : (Bus.alignment bus).place addr w = a) (hexceeds : 4 < a.lane + w.bytes) :
    store bus addr value w =
      Bus.write (Bus.write bus a.aligned ((value &&& w.mask) <<< (8 * a.lane))
          (Lanes.span a.lane (4 - a.lane)))
        (a.aligned + 4#32) ((value &&& w.mask) >>> (8 * (4 - a.lane)))
        (Lanes.span 0 (w.bytes - (4 - a.lane))) := by
  simp only [store, ha]
  rw [if_neg (by omega)]

theorem byte_and_mask (value : Word) (w : Width) {i : Nat} (hi : i < w.bytes) :
    Word.byte (value &&& w.mask) i = value.byte i := by
  rw [w.mask_eq]
  exact Word.byte_keep value hi w.bytes_le

/-- A byte copied to every lane. -/
theorem byte_copies_byte {x : Word} (hx : x.toNat < 256) {lane : Nat} (hlane : lane < 4) :
    Word.byte (x * 0x01010101#32) lane = x.byte 0 := by
  have hmul : (x * 0x01010101#32).toNat = x.toNat * 16843009 := by
    rw [BitVec.toNat_mul]
    exact Nat.mod_eq_of_lt (by simp only [BitVec.toNat_ofNat]; omega)
  have hlanes : lane = 0 ∨ lane = 1 ∨ lane = 2 ∨ lane = 3 := by omega
  apply BitVec.eq_of_toNat_eq
  rw [Word.toNat_byte, Word.toNat_byte, hmul]
  -- What is left above each lane is the copies above it.
  rcases hlanes with rfl | rfl | rfl | rfl
  · omega
  · have habove : x.toNat * 16843009 / 256 ^ 1 = x.toNat * 65793 := by omega
    omega
  · have habove : x.toNat * 16843009 / 256 ^ 2 = x.toNat * 257 := by omega
    omega
  · have habove : x.toNat * 16843009 / 256 ^ 3 = x.toNat := by omega
    omega

/-- A half word copied to both halves. -/
theorem byte_copies_half {x : Word} (hx : x.toNat < 65536) {lane : Nat} (hlane : lane < 4) :
    Word.byte (x * 0x00010001#32) lane = x.byte (lane % 2) := by
  have hmul : (x * 0x00010001#32).toNat = x.toNat * 65537 := by
    rw [BitVec.toNat_mul]
    exact Nat.mod_eq_of_lt (by simp only [BitVec.toNat_ofNat]; omega)
  have hlanes : lane = 0 ∨ lane = 1 ∨ lane = 2 ∨ lane = 3 := by omega
  apply BitVec.eq_of_toNat_eq
  rw [Word.toNat_byte, Word.toNat_byte, hmul]
  rcases hlanes with rfl | rfl | rfl | rfl
  · show _ = x.toNat / 256 ^ 0 % 256
    omega
  · have habove : x.toNat * 65537 / 256 ^ 1 = x.toNat * 256 + x.toNat / 256 := by omega
    show _ = x.toNat / 256 ^ 1 % 256
    omega
  · have habove : x.toNat * 65537 / 256 ^ 2 = x.toNat := by omega
    show _ = x.toNat / 256 ^ 0 % 256
    omega
  · have habove : x.toNat * 65537 / 256 ^ 3 = x.toNat / 256 := by omega
    show _ = x.toNat / 256 ^ 1 % 256
    omega

/-- However a narrow value is spread over its word, its bytes are in the lanes meant. -/
theorem byte_spread (value : Word) {w : Width} {offset i : Nat} (hfits : offset + w.bytes ≤ 4)
    (hi : i < w.bytes) :
    Word.byte (spread (value &&& w.mask) w offset) (offset + i) = value.byte i := by
  have hshifted : Word.byte ((value &&& w.mask) <<< (8 * offset)) (offset + i) = value.byte i := by
    rw [Word.byte_shiftLeft_of_le _ (by omega) (by omega), Nat.add_sub_cancel_left,
      byte_and_mask value w hi]
  have hlt := toNat_and_mask_lt value w
  cases w with
  | byte =>
      obtain rfl : i = 0 := by simp only [Width.bytes] at hi; omega
      show Word.byte (_ * 0x01010101#32) _ = _
      rw [byte_copies_byte hlt (by simp only [Width.bytes] at hfits; omega)]
      exact byte_and_mask value .byte hi
  | half =>
      have hlane : offset + i < 4 := by omega
      by_cases heven : offset % 2 = 0
      · have hspread : spread (value &&& Width.half.mask) .half offset =
            (value &&& Width.half.mask) * 0x00010001#32 := by
          simp only [spread, heven]
        have hcopy : (offset + i) % 2 = i := by simp only [Width.bytes] at hi; omega
        rw [hspread, byte_copies_half hlt hlane, hcopy]
        exact byte_and_mask value .half hi
      · have hodd : offset % 2 = 1 := by omega
        have hspread : spread (value &&& Width.half.mask) .half offset =
            (value &&& Width.half.mask) <<< (8 * offset) := by
          simp only [spread, hodd]
        rw [hspread, hshifted]
  | word => exact hshifted

end

section

variable {β : Type} [Bus β] [MemoryBus β]

open MemoryBus

/-- `after` is the bus that a store of the `w.bytes` low bytes of `value` from `a` on leaves. -/
structure Stored (bus : Transcript β) (a : Nat) (value : Word) (w : Width)
    (after : Transcript β) : Prop where
  /-- The bytes of the range are those of the value, where their words are there. -/
  written : ∀ i < w.bytes, byte? after (Word.addressFrom a i) =
    (byte? bus (Word.addressFrom a i)).map fun _ => value.byte i
  others : ∀ c, (∀ i < w.bytes, c ≠ Word.addressFrom a i) →
    byte? after c = byte? bus c
  /-- Each word of the range was written once, in order, and nothing else was asked. -/
  log : ∃ writes, after.log = bus.log ++ writes ∧
    List.Forall₂ (fun t c => ∃ v lanes, t = Transaction.write c v lanes) writes (touched a w)

/-- A write to a span of lanes of one word, byte by byte. -/
theorem byte?_write_span (bus : β) {base : Word} (hbase : base.aligned = base) (v : Word)
    {offset len : Nat} (hin : offset + len ≤ 4) (c : Word) :
    byte? (Bus.write bus base v (Lanes.span offset len)) c =
      if c.aligned = base ∧ offset ≤ c.lane ∧ c.lane < offset + len then
        (byte? bus c).map fun _ => v.byte c.lane
      else byte? bus c := by
  rw [byte?_write, hbase, Lanes.getLsbD_span hin c.lane_lt]
  simp only [decide_eq_true_eq]

theorem stored_of_fits (bus : Transcript β) (addr value : Word) (w : Width) {a : Word}
    (ha : (Bus.alignment bus).place addr w = a) (hfits : a.lane + w.bytes ≤ 4) :
    Stored bus a.toNat value w (store bus addr value w) := by
  rw [store_of_fits bus addr value w ha hfits]
  refine ⟨?_, ?_, ?_⟩
  · intro i hi
    obtain ⟨hword, hlane⟩ := a.addressFrom_of_lt (d := i) (by omega)
    rw [byte?_write_span bus a.aligned_aligned _ hfits, hword, hlane, if_pos ⟨rfl, by omega⟩,
      byte_spread value hfits hi]
  · intro c hc
    rw [byte?_write_span bus a.aligned_aligned _ hfits, if_neg]
    rintro ⟨hword, hfrom, hto⟩
    exact hc _ (by omega) (Word.eq_addressFrom_of_aligned hword hfrom)
  · rw [touched_of_fits hfits]
    exact ⟨_, rfl, .cons ⟨_, _, rfl⟩ .nil⟩

theorem stored_of_exceeds (bus : Transcript β) (addr value : Word) (w : Width) {a : Word}
    (ha : (Bus.alignment bus).place addr w = a) (hexceeds : 4 < a.lane + w.bytes) :
    Stored bus a.toNat value w (store bus addr value w) := by
  have hlane := a.lane_lt
  have hle := w.bytes_le
  have hne := a.next_ne_aligned
  rw [store_of_exceeds bus addr value w ha hexceeds]
  refine ⟨?_, ?_, ?_⟩
  · intro i hi
    rw [byte?_write_span _ a.aligned_next _ (by omega),
      byte?_write_span bus a.aligned_aligned _ (by omega)]
    by_cases hfirst : a.lane + i < 4
    · obtain ⟨hword, hplace⟩ := a.addressFrom_of_lt hfirst
      rw [hword, hplace, if_neg (fun h => hne h.1.symm), if_pos ⟨rfl, by omega⟩,
        Word.byte_shiftLeft_of_le _ (by omega) (by omega), Nat.add_sub_cancel_left,
        byte_and_mask value w hi]
    · obtain ⟨hword, hplace⟩ := a.addressFrom_of_le (d := i) (by omega) (by omega)
      rw [hword, hplace, if_pos ⟨rfl, by omega⟩, if_neg (fun h => hne h.1),
        Word.byte_ushiftRight, show 4 - a.lane + (a.lane + i - 4) = i by omega,
        byte_and_mask value w hi]
  · intro c hc
    rw [byte?_write_span _ a.aligned_next _ (by omega), if_neg,
      byte?_write_span bus a.aligned_aligned _ (by omega), if_neg]
    · rintro ⟨hword, hfrom, -⟩
      have hc4 := c.lane_lt
      exact hc _ (by omega) (Word.eq_addressFrom_of_aligned hword hfrom)
    · rintro ⟨hword, -, hto⟩
      exact hc _ (by omega) (Word.eq_addressFrom_of_next hword)
  · rw [touched_of_exceeds hexceeds]
    exact ⟨_, List.append_assoc _ _ _, .cons ⟨_, _, rfl⟩ (.cons ⟨_, _, rfl⟩ .nil)⟩

/-- **A store replaces the bytes of its range.** -/
theorem stored_store (bus : Transcript β) (addr value : Word) (w : Width) :
    Stored bus ((Bus.alignment bus).start addr w) value w (store bus addr value w) := by
  rw [← Alignment.toNat_place]
  generalize ha : (Bus.alignment bus).place addr w = a
  by_cases hfits : a.lane + w.bytes ≤ 4
  · exact stored_of_fits bus addr value w ha hfits
  · exact stored_of_exceeds bus addr value w ha (by omega)

end

end Access

end HomeComputer
