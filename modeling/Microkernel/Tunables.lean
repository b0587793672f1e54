import Microkernel.Config
import Microkernel.Text.Numeral
import Microkernel.Text.Quoted

/-!
# Tunable numbers

The numbers of the kernel that can be set from the environment when it is built.  Each is read,
checked, and written into a generated file of constants.
-/

namespace Microkernel

/-- A number that can be set from the environment. -/
structure Tunable where
  variableName : String
  constantName : String
  typeName : String
  /-- The number if the variable is not set. -/
  standard : Nat
  deriving DecidableEq, Repr

namespace Tunable

/-- Every tunable number, in the order of the generated file. -/
def all : List Tunable :=
  [⟨"KERNEL_MAX_PROCESSES", "MAX_PROCESSES", "usize", Config.maxProcesses⟩,
   ⟨"KERNEL_MAX_PIPES", "MAX_PIPES", "usize", Config.maxPipes⟩,
   ⟨"KERNEL_MAX_HANDLES", "MAX_HANDLES", "usize", Config.maxHandles⟩,
   ⟨"KERNEL_PIPE_CAPACITY", "PIPE_CAPACITY", "usize", Config.pipeCapacity⟩,
   ⟨"KERNEL_TICK_US", "TICK_US", "u64", Config.tickMicroseconds⟩,
   ⟨"KERNEL_HEAP_LIMIT", "HEAP_LIMIT", "usize", Config.heapLimit⟩,
   ⟨"KERNEL_KLOG_UART", "KLOG_UART", "usize", Config.serialAddress⟩,
   ⟨"KERNEL_DEVICE_BASE", "DEVICE_BASE", "usize", Config.deviceBase⟩]

/-- The variables whose numbers must not be zero. -/
def nonzero : List String :=
  ["KERNEL_MAX_PROCESSES", "KERNEL_MAX_PIPES", "KERNEL_MAX_HANDLES", "KERNEL_PIPE_CAPACITY",
    "KERNEL_TICK_US"]

/-- The demand that a number does not meet, if there is one. -/
def demand? (variableName : String) (number : Nat) : Option String :=
  if variableName ∈ nonzero ∧ number = 0 then some "must be nonzero"
  else if variableName = "KERNEL_MAX_PIPES" ∧ 0x10000 ≤ number then some "must fit in a pipe id"
  else if variableName = "KERNEL_HEAP_LIMIT" ∧ number % Config.pageSize ≠ 0 then
    some "must be a whole number of pages"
  else if variableName = "KERNEL_DEVICE_BASE" ∧ number % 0x200000 ≠ 0 then
    some "must be 2 MiB aligned"
  else none

/-- Go on only if a number meets the demands on its variable. -/
def check (variableName : String) (number : Nat) : Except String Unit :=
  match demand? variableName number with
  | some demand => .error s!"{variableName}={Word.hexText number} {demand}"
  | none => .ok ()

/-- The number that the environment gives to a variable. -/
def valueOf (tunable : Tunable) (setting : Option String) : Except String Nat :=
  match setting with
  | none => .ok tunable.standard
  | some text =>
      match Numeral.parse text with
      | .ok number => .ok number
      | .error error =>
          let quoted := Quoted.encode text
          .error s!"{tunable.variableName}={quoted} is not a number: {error.message}"

/-- The line of the generated file for a number. -/
def constantLine (tunable : Tunable) (number : Nat) : String :=
  s!"pub const {tunable.constantName}: {tunable.typeName} = {Word.hexText number};\n"

/-- The line that asks for another build when a variable changes. -/
def watchLine (tunable : Tunable) : String :=
  s!"cargo:rerun-if-env-changed={tunable.variableName}\n"

/-- The first line of the generated file. -/
def heading : String :=
  "// See build.rs for the variables behind these\n"

/-- The generated file for an environment, given as a function from variables to their texts. -/
def constantsFile (environment : String → Option String) : Except String String := do
  let lines ← all.mapM fun tunable => do
    let number ← tunable.valueOf (environment tunable.variableName)
    check tunable.variableName number
    return tunable.constantLine number
  return heading ++ String.join lines

/-- The lines that ask for another build when a variable changes. -/
def watchLines : String :=
  String.join (all.map watchLine)

end Tunable

end Microkernel
