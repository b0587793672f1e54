/-!
# Sizes of the system

The numbers that both sides of the system-call boundary agree on, and the tunable numbers of this
kernel.
-/

namespace Microkernel

namespace Config

/-- The size of a page, the unit of allocation and mapping. -/
def pageSize : Nat := 4096

/-- The number of pages in a process's stack. -/
def stackPages : Nat := 2

def stackSize : Nat := stackPages * pageSize

/-- The address at which every process finds its argument page. -/
def argumentAddress : Nat := 0x1000000

/-- System-call numbers from this one on can never be registered. -/
def callLimit : Nat := 512

/-- A pipe's name has fewer bytes than this. -/
def pipeNameLimit : Nat := 32

/-- The names of the pipes that programs use for input, output and errors. -/
def standardPipes : List String := ["stdin", "stdout", "stderr"]

def maxProcesses : Nat := 16

/-- The number of pipes that can exist at once. -/
def maxPipes : Nat := 16

/-- The number of pipes that one process can hold. -/
def maxHandles : Nat := 8

/-- The number of regions that one process can have. -/
def maxRegions : Nat := 8

/-- The number of bytes that a pipe can buffer. -/
def pipeCapacity : Nat := 1024

/-- The length of a clock tick in microseconds. -/
def tickMicroseconds : Nat := 1000

/-- The number of pages that a process's heap can grow to. -/
def heapPages : Nat := 64

/-- The size that a process's heap can grow to. -/
def heapLimit : Nat := heapPages * pageSize

/-- The address of the serial line that receives the log. -/
def serialAddress : Nat := 0x3F201000

def deviceBase : Nat := 0x3F000000

/-- The longest message that a process can print, in bytes. -/
def printLimit : Nat := 256

end Config

end Microkernel
