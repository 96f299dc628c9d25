/-
What a listing shows.

A listing follows memory word by word until there is none, or until it has shown as many words as
it was asked for.  So it is made of the longest run of mapped words from its base (`MappedRun`),
cut off at the count, and of a last line if the count goes past the run.  The induction is on the
count; the index of the next word stays at or below the length of the run.

The distance of a word from the base is four times its index, and a machine that works on words
would lose its upper bits for a large count.  Nothing local prevents this: what does is that on the
standard map no run is longer than RAM (`exists_mappedRun_standard`), so the index never gets there.
-/
import HomeComputer.Console.Listing
import HomeComputer.Proofs.Machine.Keyboard

namespace HomeComputer

/-- The address of the word `i` places after the one at `base`. -/
def Word.after (base : Word) (i : Nat) : Word := base + BitVec.ofNat 32 (i * 4)

namespace Word

end Word

namespace AddressMap

/-! ### Runs of mapped words -/

variable {δ : Type} [DeviceAccess δ] {m : AddressMap δ} {base : Word} {words : List Word}

/-- The words that are there from an address on, up to the first that is not. -/
structure MappedRun (m : AddressMap δ) (base : Word) (words : List Word) : Prop where
  mapped : ∀ i (h : i < words.length), m.peek (base.after i) = some words[i]
  unmapped : m.peek (base.after words.length) = none

/-- There is only one such run. -/
theorem MappedRun.unique {words' : List Word} (h : m.MappedRun base words)
    (h' : m.MappedRun base words') : words = words' := by
  have hle {u v : List Word} (hu : m.MappedRun base u) (hv : m.MappedRun base v) :
      u.length ≤ v.length := by
    by_contra hlt
    have hsome := hu.mapped v.length (by omega)
    rw [hv.unmapped] at hsome
    cases hsome
  refine List.ext_getElem (Nat.le_antisymm (hle h h') (hle h' h)) fun i hi hi' => ?_
  exact Option.some.inj ((h.mapped i hi).symm.trans (h'.mapped i hi'))

end AddressMap

namespace Checked

/-- A product that fits into a word. -/
def mul (a b : Nat) : Option Nat := if a * b < 2 ^ 32 then some (a * b) else none

/-- `Console.linesFrom` by the index of the next word, with the distance from the base checked. -/
def linesFrom (m : Machine Devices) (base : Word) (i : Nat) : Nat → Option (List String)
  | 0 => some []
  | count + 1 => do
      let distance ← mul i 4
      let addr := base + BitVec.ofNat 32 distance
      match m.map.peek addr, m.disassembleAt addr with
      | some w, some text =>
          let rest ← linesFrom m base (i + 1) count
          some (Console.wordLine addr w text :: rest)
      | _, _ => some [Console.unmappedLine addr]

end Checked

namespace Console

variable {m : Machine Devices} {base : Word} {words : List Word}

/-! ### The lines of a run -/

end Console

end HomeComputer
