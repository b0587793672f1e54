/-!
# Log lines of programs

A program's log line is put together from pieces of text in a buffer of fixed size.  Characters
that do not fit any more are left out one by one, as are null characters, and a null character
ends the line.
-/

namespace Microkernel

/-- The longest log line of a program, in bytes. -/
def logLineLimit : Nat := 255

/-- A log line that is being put together. -/
structure LogLine where
  characters : List Char
  deriving DecidableEq, Repr

namespace LogLine

def empty : LogLine := ⟨[]⟩

/-- The number of bytes of a list of characters. -/
def byteLength (characters : List Char) : Nat :=
  characters.foldl (fun used character => used + character.utf8Size) 0

/-- The characters kept from a text, given the number of bytes that are in use already. -/
def keep (used : Nat) : List Char → List Char
  | [] => []
  | character :: rest =>
      if character = '\x00' ∨ logLineLimit < used + character.utf8Size then keep used rest
      else character :: keep (used + character.utf8Size) rest

/-- The line with a piece of text added. -/
def write (line : LogLine) (piece : String) : LogLine :=
  ⟨line.characters ++ keep (byteLength line.characters) piece.toList⟩

/-- The line put together from pieces of text, with its terminator. -/
def format (pieces : List String) : String :=
  String.ofList ((pieces.foldl write empty).characters ++ ['\x00'])

end LogLine

end Microkernel
