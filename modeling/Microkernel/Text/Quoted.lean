import Microkernel.Text.Unicode
import Microkernel.Word

/-!
# Quoted text

A text shown between quotes, so that every character of it can be told apart.
-/

namespace Microkernel

namespace Quoted

/-- The spelling of a character between quotes. -/
def spell (character : Char) : List Char :=
  match character with
  | '\x00' => ['\\', '0']
  | '\t' => ['\\', 't']
  | '\r' => ['\\', 'r']
  | '\n' => ['\\', 'n']
  | '"' => ['\\', '"']
  | '\\' => ['\\', '\\']
  | _ =>
      if Unicode.isShapeless character then
        ['\\', 'u', '\x7b'] ++ Nat.toDigits 16 character.toNat ++ ['\x7d']
      else [character]

def encode (text : String) : String :=
  String.ofList ('"' :: text.toList.flatMap spell ++ ['"'])

end Quoted

end Microkernel
