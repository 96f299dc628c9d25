/-
Multiplication and division.

The upper halves of products are taken from products of twice the width, each
operand extended as it is meant.  Division never fails: by zero the quotient is all
ones and the remainder the dividend, and the one quotient that does not fit wraps
round to the dividend with nothing left over.
-/
import HomeComputer.Isa.Operation

namespace HomeComputer

namespace MulDiv

/-- The upper half of a product of double width. -/
def upperHalf (p : BitVec 64) : Word := p.extractLsb' 32 32

def apply : MulDiv → Word → Word → Word
  | mul, a, b => a * b
  | mulh, a, b => upperHalf (a.signExtend 64 * b.signExtend 64)
  | mulhsu, a, b => upperHalf (a.signExtend 64 * b.setWidth 64)
  | mulhu, a, b => upperHalf (a.setWidth 64 * b.setWidth 64)
  | div, a, b => if b = 0#32 then BitVec.allOnes 32 else a.sdiv b
  | divu, a, b => if b = 0#32 then BitVec.allOnes 32 else a / b
  | rem, a, b => if b = 0#32 then a else a.srem b
  | remu, a, b => if b = 0#32 then a else a % b

end MulDiv

end HomeComputer
