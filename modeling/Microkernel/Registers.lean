/-!
# Saved registers

The state of the processor as a program left it when it entered the kernel.
-/

namespace Microkernel

/-- The registers of a program that is not running. -/
structure Registers where
  /-- The general registers `x0` to `x30`. -/
  general : Vector UInt64 31
  stackPointer : UInt64
  /-- The address at which the program goes on. -/
  programCounter : UInt64
  status : UInt64
  deriving DecidableEq, Repr

namespace Registers

def zero : Registers where
  general := Vector.replicate 31 0
  stackPointer := 0
  programCounter := 0
  status := 0

/-- The registers with which a program starts. -/
def start (entry stackTop : UInt64) : Registers :=
  { zero with stackPointer := stackTop, programCounter := entry }

instance instNeZeroArguments : @NeZero Nat ⟨0⟩ 5 := ⟨by decide⟩

/-- The argument of a call at one of its five places. -/
def argument (registers : Registers) (place : Fin 5) : Nat :=
  (registers.general.get (place.castLE (by decide))).toNat

/-- The number of the requested call, which is the lower half of its register. -/
def callNumber (registers : Registers) : Nat :=
  registers.general[8].toNat % 0x100000000

/-- The registers with a response in place. -/
def respond (registers : Registers) (response : UInt64) : Registers :=
  { registers with general := registers.general.set 0 response }

def response (registers : Registers) : UInt64 :=
  registers.general[0]

@[simp] theorem response_respond (registers : Registers) (response : UInt64) :
    (registers.respond response).response = response :=
  Vector.getElem_set_self _

/-- The registers moved back so that the call is made again when the program goes on. -/
def rewind (registers : Registers) : Registers :=
  { registers with programCounter := registers.programCounter - 4 }

/-- The registers with a call and its arguments in place. -/
def load (registers : Registers) (number : UInt64) (arguments : Vector UInt64 5) : Registers :=
  { registers with
    general := ((((registers.general.set 0 arguments[0]).set 1 arguments[1]).set 2
      arguments[2]).set 3 arguments[3]).set 4 arguments[4] |>.set 8 number }

/-- The registers as they are saved when the program enters the kernel, to go on behind the
instruction that made it enter. -/
def enter (registers : Registers) : Registers :=
  { registers with programCounter := registers.programCounter + 4 }

end Registers

end Microkernel
