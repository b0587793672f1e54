/-!
# Reading UTF-8

Bytes from a program are logged as far as they are well-formed UTF-8: no overlong forms, no
surrogates, and nothing beyond the last code point.
-/

namespace Microkernel

namespace Utf8

/-- The low six bits of a continuation byte. -/
def continuation? (byte : UInt8) : Option Nat :=
  if 0x80 ≤ byte ∧ byte ≤ 0xBF then some (byte.toNat - 0x80) else none

/-- The character with a given code point, which must be at least `lowest`. -/
def scalar? (lowest point : Nat) : Option Char :=
  if valid : lowest ≤ point ∧ point.isValidChar then some (Char.ofNatAux point valid.2) else none

/-- The character that begins with a given byte, and how many of the bytes behind it belong to
it. -/
def character? (first : UInt8) (rest : List UInt8) : Option (Char × Nat) :=
  let lead := first.toNat
  if lead < 0x80 then (scalar? 0 lead).map (·, 0)
  else if 0xC0 ≤ lead ∧ lead < 0xE0 then
    match rest.take 1 |>.mapM continuation? with
    | some [a] => (scalar? 0x80 ((lead - 0xC0) * 64 + a)).map (·, 1)
    | _ => none
  else if 0xE0 ≤ lead ∧ lead < 0xF0 then
    match rest.take 2 |>.mapM continuation? with
    | some [a, b] => (scalar? 0x800 (((lead - 0xE0) * 64 + a) * 64 + b)).map (·, 2)
    | _ => none
  else if 0xF0 ≤ lead ∧ lead < 0xF8 then
    match rest.take 3 |>.mapM continuation? with
    | some [a, b, c] =>
        (scalar? 0x10000 ((((lead - 0xF0) * 64 + a) * 64 + b) * 64 + c)).map (·, 3)
    | _ => none
  else none

/-- The characters at the start of a list of bytes, up to the first byte that does not begin a
well-formed one. -/
def validPrefix : List UInt8 → List Char
  | [] => []
  | first :: rest =>
      match character? first rest with
      | some (character, more) => character :: validPrefix (rest.drop more)
      | none => []
termination_by bytes => bytes.length
decreasing_by simp only [List.length_drop, List.length_cons]; omega

/-- The text at the start of a list of bytes, as far as it is well-formed. -/
def decode (bytes : List UInt8) : String :=
  String.ofList (validPrefix bytes)

end Utf8

end Microkernel
