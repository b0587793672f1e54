import Microkernel.Text.Unicode
import Microkernel.Word

/-!
# Numerals

A numeral is a number that a person has written, in base ten or, behind a mark, in base sixteen.
White space around it does not count, and neither do underscores anywhere in it.
-/

namespace Microkernel

/-- The ways in which a text can fail to be a numeral. -/
inductive NumeralError where
  | empty
  | invalidDigit
  | tooLarge
  deriving DecidableEq, Repr

namespace NumeralError

def message : NumeralError → String
  | empty => "cannot parse integer from empty string"
  | invalidDigit => "invalid digit found in string"
  | tooLarge => "number too large to fit in target type"

end NumeralError

namespace Numeral

/-- The value of a digit in base sixteen, in either case. -/
def digitValue? (digit : Char) : Option Nat :=
  if '0' ≤ digit ∧ digit ≤ '9' then some (digit.toNat - '0'.toNat)
  else if 'a' ≤ digit ∧ digit ≤ 'f' then some (digit.toNat - 'a'.toNat + 10)
  else if 'A' ≤ digit ∧ digit ≤ 'F' then some (digit.toNat - 'A'.toNat + 10)
  else none

/-- The value of a digit in a base of at most sixteen. -/
def digitIn? (base : Nat) (digit : Char) : Option Nat :=
  (digitValue? digit).filter (· < base)

/-- The number that digits continue.  Of two failures the one that is met first counts, where a
digit is looked at before it is added. -/
def continueWith (base : Nat) : Nat → List Char → Except NumeralError Nat
  | number, [] => .ok number
  | number, digit :: rest =>
      match digitIn? base digit with
      | none => .error .invalidDigit
      | some value =>
          if number * base + value < Word.limit then
            continueWith base (number * base + value) rest
          else .error .tooLarge

/-- The number that digits with an optional plus sign in front denote. -/
def ofDigits (base : Nat) : List Char → Except NumeralError Nat
  | [] => .error .empty
  | ['+'] => .error .invalidDigit
  | '+' :: digits => continueWith base 0 digits
  | digits => continueWith base 0 digits

/-- A text without the white space around it. -/
def trim (text : List Char) : List Char :=
  ((text.dropWhile Unicode.isBlank).reverse.dropWhile Unicode.isBlank).reverse

def essence (text : List Char) : List Char :=
  (trim text).filter (· != '_')

def parse (text : String) : Except NumeralError Nat :=
  match essence text.toList with
  | '0' :: 'x' :: digits => ofDigits 16 digits
  | '0' :: 'X' :: digits => ofDigits 16 digits
  | digits => ofDigits 10 digits

end Numeral

end Microkernel
