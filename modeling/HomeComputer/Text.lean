/-
Numbers as text, and text as bytes.

Two spellings of hexadecimal are in use: addresses and operands carry the mark `0x`
and no leading zeros, columns of a listing are padded to a fixed number of digits.
Both are lower case.
-/
import HomeComputer.Text.Extending
import HomeComputer.Text.Invisible
import HomeComputer.Word

namespace HomeComputer

namespace Text

/-- The bytes of a text in which every character is one byte. -/
def ascii (s : String) : List Byte := s.toList.map fun c => BitVec.ofNat 8 c.toNat

/-- The hexadecimal digits of `n`, without leading zeros. -/
def hexDigits (n : Nat) : String := String.ofList (Nat.toDigits 16 n)

/-- The hexadecimal digits of `n`, with zeros in front up to `width` digits. -/
def paddedHex (width n : Nat) : String :=
  let digits := Nat.toDigits 16 n
  String.ofList (List.replicate (width - digits.length) '0' ++ digits)

/-- An address or operand: marked hexadecimal without leading zeros. -/
def address (n : Nat) : String := "0x" ++ hexDigits n

/-- A word of a report: marked hexadecimal of eight digits. -/
def fullWord (n : Nat) : String := "0x" ++ paddedHex 8 n

/-- The text with blanks after it, up to `width` characters. -/
def padRight (width : Nat) (s : String) : String :=
  s ++ String.ofList (List.replicate (width - s.length) ' ')

/-- Whether a character is given by its number where a text is quoted: it cannot be seen
there, or would hang on the quotation mark. -/
def isNumbered (c : Char) : Bool :=
  CharacterSet.extending.contains c || CharacterSet.invisible.contains c

/-- A character as it stands between double quotes: quotes, backslashes, line ends, tabs
and the character zero are marked by a backslash, others that do not show by themselves
are given by their number. -/
def escape (c : Char) : List Char :=
  match c with
  | '"' => ['\\', '"']
  | '\\' => ['\\', '\\']
  | '\n' => ['\\', 'n']
  | '\r' => ['\\', 'r']
  | '\t' => ['\\', 't']
  | '\x00' => ['\\', '0']
  | c =>
      if isNumbered c then ['\\', 'u', '\x7b'] ++ Nat.toDigits 16 c.toNat ++ ['\x7d']
      else [c]

def quoted (s : String) : String := String.ofList ('"' :: s.toList.flatMap escape ++ ['"'])

end Text

end HomeComputer
