/-
No access goes out of range.

Words can be shifted by any amount here, a difference of numbers stops at 0 and a span of
lanes is cut off at the last one.  Arithmetic on a machine is not so patient: a shift by the
width of a word or more, a difference below 0 and a span that leaves its word are errors.
`Checked` carries out loads and stores with operations that give up on these, and its two
main results say that they never do.
-/
import HomeComputer.Memory.Access
import HomeComputer.Proofs.Memory.Access

namespace HomeComputer

namespace Checked

/-! ### Operations that can give up -/

def shiftLeft (a : Word) (n : Nat) : Option Word := if n < 32 then some (a <<< n) else none

def shiftRight (a : Word) (n : Nat) : Option Word := if n < 32 then some (a >>> n) else none

def sub (a b : Nat) : Option Nat := if b ≤ a then some (a - b) else none

def span (offset len : Nat) : Option Lanes :=
  if offset + len ≤ 4 then some (Lanes.span offset len) else none

theorem shiftLeft_eq (a : Word) {n : Nat} (hn : n < 32) : shiftLeft a n = some (a <<< n) :=
  if_pos hn

theorem shiftRight_eq (a : Word) {n : Nat} (hn : n < 32) : shiftRight a n = some (a >>> n) :=
  if_pos hn

theorem sub_eq {a b : Nat} (h : b ≤ a) : sub a b = some (a - b) := if_pos h

theorem span_eq {offset len : Nat} (h : offset + len ≤ 4) :
    span offset len = some (Lanes.span offset len) := if_pos h

/-! ### Accesses made of them -/

/-- `Alignment.place` with every operation checked. -/
def place (p : Alignment) (addr : Word) (w : Width) : Option Word :=
  match p with
  | .split => some addr
  | .force => do
      let low ← sub w.bytes 1
      some (addr &&& ~~~BitVec.ofNat 32 low)

/-- `Access.spread` with every operation checked. -/
def spread (value : Word) (w : Width) (offset : Nat) : Option Word :=
  match w, offset % 2 with
  | .byte, _ => some (value * 0x01010101#32)
  | .half, 0 => some (value * 0x00010001#32)
  | _, _ => shiftLeft value (8 * offset)

section

variable {β : Type} [Bus β]

/-- `Access.load` with every operation checked. -/
def load (bus : β) (addr : Word) (w : Width) : Option (Word × β) := do
  let addr ← place (Bus.alignment bus) addr w
  let base := addr.aligned
  let offset := addr.lane
  let first := Access.readWord bus base
  let low ← shiftRight first.1 (8 * offset)
  if offset + w.bytes > 4 then
    let second := Access.readWord first.2 (base + 4#32)
    let kept ← sub 4 offset
    let high ← shiftLeft second.1 (8 * kept)
    some ((low ||| high) &&& w.mask, second.2)
  else
    some (low &&& w.mask, first.2)

/-- `Access.store` with every operation checked. -/
def store (bus : β) (addr value : Word) (w : Width) : Option β := do
  let addr ← place (Bus.alignment bus) addr w
  let base := addr.aligned
  let offset := addr.lane
  let value := value &&& w.mask
  if offset + w.bytes ≤ 4 then
    let data ← spread value w offset
    let lanes ← span offset w.bytes
    some (Bus.write bus base data lanes)
  else
    let first ← sub 4 offset
    let low ← shiftLeft value (8 * offset)
    let lowLanes ← span offset first
    let high ← shiftRight value (8 * first)
    let rest ← sub w.bytes first
    let highLanes ← span 0 rest
    some (Bus.write (Bus.write bus base low lowLanes) (base + 4#32) high highLanes)

/-! ### They never do -/

theorem place_eq (p : Alignment) (addr : Word) (w : Width) :
    place p addr w = some (p.place addr w) := by
  cases p with
  | split => rfl
  | force =>
      unfold place
      rw [sub_eq w.bytes_pos]
      rfl

theorem spread_eq (value : Word) (w : Width) {offset : Nat} (hoffset : offset < 4) :
    spread value w offset = some (Access.spread value w offset) := by
  have hshift := shiftLeft_eq value (show 8 * offset < 32 by omega)
  unfold spread Access.spread
  cases w with
  | byte => rfl
  | half =>
      rcases Nat.mod_two_eq_zero_or_one offset with heven | hodd
      · simp only [heven]
      · simp only [hodd]
        exact hshift
  | word => exact hshift

theorem load_eq (bus : β) (addr : Word) (w : Width) :
    load bus addr w = some (Access.load bus addr w) := by
  unfold load
  rw [place_eq]
  generalize ha : (Bus.alignment bus).place addr w = a
  have hlane := a.lane_lt
  have hle := w.bytes_le
  show (shiftRight _ (8 * a.lane)).bind _ = _
  rw [shiftRight_eq _ (by omega)]
  by_cases hfits : a.lane + w.bytes ≤ 4
  · rw [Access.load_of_fits bus addr w ha hfits, Option.bind_some, if_neg (by omega)]
  · rw [Access.load_of_exceeds bus addr w ha (by omega), Option.bind_some, if_pos (by omega)]
    show (sub 4 a.lane).bind _ = _
    rw [sub_eq (by omega), Option.bind_some]
    show (shiftLeft _ (8 * (4 - a.lane))).bind _ = _
    rw [shiftLeft_eq _ (by omega), Option.bind_some]

theorem store_eq (bus : β) (addr value : Word) (w : Width) :
    store bus addr value w = some (Access.store bus addr value w) := by
  unfold store
  rw [place_eq]
  generalize ha : (Bus.alignment bus).place addr w = a
  have hlane := a.lane_lt
  have hle := w.bytes_le
  show (if a.lane + w.bytes ≤ 4 then _ else _) = _
  by_cases hfits : a.lane + w.bytes ≤ 4
  · rw [Access.store_of_fits bus addr value w ha hfits, if_pos hfits, spread_eq _ w hlane,
      span_eq hfits]
    rfl
  · rw [Access.store_of_exceeds bus addr value w ha (by omega), if_neg hfits, sub_eq (by omega)]
    show (shiftLeft _ (8 * a.lane)).bind _ = _
    rw [shiftLeft_eq _ (by omega), Option.bind_some]
    show (span a.lane (4 - a.lane)).bind _ = _
    rw [span_eq (by omega), Option.bind_some]
    show (shiftRight _ (8 * (4 - a.lane))).bind _ = _
    rw [shiftRight_eq _ (by omega), Option.bind_some]
    show (sub w.bytes (4 - a.lane)).bind _ = _
    rw [sub_eq (by omega), Option.bind_some]
    show (span 0 (w.bytes - (4 - a.lane))).bind _ = _
    rw [span_eq (by omega), Option.bind_some]

end

end Checked

end HomeComputer
