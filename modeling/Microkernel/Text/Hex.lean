/-!
# Bytes in base sixteen

A list of bytes written as two digits each, in lower case.
-/

namespace Microkernel

namespace Hex

def spell (byte : UInt8) : List Char :=
  [Nat.digitChar (byte.toNat / 16), Nat.digitChar (byte.toNat % 16)]

/-- The digits of a list of bytes. -/
def encode (bytes : List UInt8) : String :=
  String.ofList (bytes.flatMap spell)

def digitValue? (digit : Char) : Option Nat :=
  if '0' ≤ digit ∧ digit ≤ '9' then some (digit.toNat - '0'.toNat)
  else if 'a' ≤ digit ∧ digit ≤ 'f' then some (digit.toNat - 'a'.toNat + 10)
  else none

/-- The bytes whose digits are given, if every byte has two. -/
def decode? : List Char → Option (List UInt8)
  | [] => some []
  | [_] => none
  | high :: low :: rest => do
      let byte := (← digitValue? high) * 16 + (← digitValue? low)
      return byte.toUInt8 :: (← decode? rest)

end Hex

end Microkernel
