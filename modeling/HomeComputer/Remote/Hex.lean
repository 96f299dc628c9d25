/-
Hexadecimal in the debugger's messages.

Messages are bytes, and so are the digits in them.  Digits are read in either case and
written in lower case.  Data is written two digits a byte; a number is written with
its highest digit first, with as many zeros in front as its writer likes, and has to
fit a word.
-/
import HomeComputer.Word

namespace HomeComputer

namespace Hex

def digit? (c : Byte) : Option Nat :=
  let n := c.toNat
  if 0x30 ≤ n ∧ n ≤ 0x39 then some (n - 0x30)
  else if 0x41 ≤ n ∧ n ≤ 0x46 then some (n - 0x41 + 10)
  else if 0x61 ≤ n ∧ n ≤ 0x66 then some (n - 0x61 + 10)
  else none

/-- The digit for a value below sixteen, in lower case. -/
def lowerDigit (n : Nat) : Byte := BitVec.ofNat 8 (if n < 10 then 0x30 + n else 0x61 + (n - 10))

/-- The digit for a value below sixteen, in upper case. -/
def upperDigit (n : Nat) : Byte := BitVec.ofNat 8 (if n < 10 then 0x30 + n else 0x41 + (n - 10))

def encode : List Byte → List Byte
  | [] => []
  | b :: bs => lowerDigit (b.toNat / 16) :: lowerDigit (b.toNat % 16) :: encode bs

/-- The byte that two digits spell. -/
def pair? (high low : Byte) : Option Byte := do
  let h ← digit? high
  let l ← digit? low
  return BitVec.ofNat 8 (h * 16 + l)

/-- The bytes that pairs of digits spell. -/
def decode? : List Byte → Option (List Byte)
  | [] => some []
  | [_] => none
  | high :: low :: rest => do
      let b ← pair? high low
      let bs ← decode? rest
      return b :: bs

/-- The number that digits spell after those of `value`, while it fits a word. -/
def numberFrom? (value : Nat) : List Byte → Option Nat
  | [] => some value
  | c :: cs => do
      let d ← digit? c
      if value * 16 + d < 2 ^ 32 then numberFrom? (value * 16 + d) cs else none

/-- The number that one digit or more spell, if it fits a word. -/
def number? : List Byte → Option Word
  | [] => none
  | cs => (numberFrom? 0 cs).map (BitVec.ofNat 32)

end Hex

end HomeComputer
