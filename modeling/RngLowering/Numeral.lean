/-!
Unsigned numerals: reading digits of a base below a limit, and the hexadecimal form of a number.

A numeral may carry a plus sign. Reading goes from left to right and stops at the first fault.
-/

set_option autoImplicit false

namespace RngLowering.Numeral

/-- Why a text is not a numeral. -/
inductive Fault where
  | empty
  | invalidDigit
  | tooLarge
  deriving DecidableEq

def Fault.message : Fault → String
  | .empty => "cannot parse integer from empty string"
  | .invalidDigit => "invalid digit found in string"
  | .tooLarge => "number too large to fit in target type"

/-- The value of an ASCII digit or letter, where `a` and `A` stand for ten. -/
def digitValue? (base : Nat) (c : Char) : Option Nat :=
  let value? :=
    if c.isDigit then some (c.toNat - '0'.toNat)
    else if c.isLower then some (c.toNat - 'a'.toNat + 10)
    else if c.isUpper then some (c.toNat - 'A'.toNat + 10)
    else none
  value?.filter (· < base)

/-- Read digits after a leading part worth `acc`. Every intermediate value stays below `limit`. -/
def readDigits (base limit : Nat) : Nat → List Char → Except Fault Nat
  | acc, [] => .ok acc
  | acc, c :: rest =>
    match digitValue? base c with
    | none => .error .invalidDigit
    | some digit =>
      let next := acc * base + digit
      if next < limit then readDigits base limit next rest else .error .tooLarge

/-- Read a whole numeral: an optional plus sign and at least one digit. -/
def readUnsigned (base limit : Nat) : List Char → Except Fault Nat
  | [] => .error .empty
  | ['+'] => .error .invalidDigit
  | '+' :: digits => readDigits base limit 0 digits
  | digits => readDigits base limit 0 digits

/-- Read a decimal numeral, or a hexadecimal one after `0x` or `0X`. Underscores may stand anywhere
and mean nothing. -/
def readLiteral (limit : Nat) (text : List Char) : Except Fault Nat :=
  match text.filter (· ≠ '_') with
  | '0' :: 'x' :: digits => readUnsigned 16 limit digits
  | '0' :: 'X' :: digits => readUnsigned 16 limit digits
  | digits => readUnsigned 10 limit digits

/-- Hexadecimal digits in lower case, without a mark. -/
def hexDigits (n : Nat) : String :=
  String.ofList (Nat.toDigits 16 n)

/-- Hexadecimal form after `0x`. -/
def hex (n : Nat) : String :=
  "0x" ++ hexDigits n

end RngLowering.Numeral
