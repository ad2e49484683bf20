/-! Numbers in base sixteen, and the code points they stand for. -/

namespace TreeSelect.Text

/-- Lower-case hexadecimal digits, without leading zeros. -/
def hexadecimal (code : Nat) : List Char := Nat.toDigits 16 code

/-- The value of an ASCII hexadecimal digit of either case. -/
def hexDigit? (letter : Char) : Option Nat :=
  if '0' ≤ letter ∧ letter ≤ '9' then some (letter.toNat - '0'.toNat)
  else if 'a' ≤ letter ∧ letter ≤ 'f' then some (letter.toNat - 'a'.toNat + 10)
  else if 'A' ≤ letter ∧ letter ≤ 'F' then some (letter.toNat - 'A'.toNat + 10)
  else none

def isHexDigit (letter : Char) : Bool := (hexDigit? letter).isSome

/-- The number written by hexadecimal digits that follow those of `known`. -/
def hexNumberFrom (known : Nat) : List Char → Option Nat
  | [] => some known
  | letter :: rest =>
      match hexDigit? letter with
      | some digit => hexNumberFrom (16 * known + digit) rest
      | none => none

/-- The number written by one or more hexadecimal digits. -/
def hexNumber? : List Char → Option Nat
  | [] => none
  | digits => hexNumberFrom 0 digits

/-- The letter with the given code point, unless that is a surrogate or too large. -/
def scalar? (code : Nat) : Option Char :=
  if valid : code.isValidChar then some (Char.ofNatAux code valid) else none

end TreeSelect.Text
