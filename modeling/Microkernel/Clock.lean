import Microkernel.Config
import Microkernel.Word

/-!
# Time

Time is counted in ticks, up to an end of time at which the clock stays.
-/

namespace Microkernel

namespace Clock

/-- The tick that comes a number of ticks after another. -/
def after (time ticks : Nat) : Nat :=
  Word.saturatingSum time ticks

/-- The number of ticks that last at least a number of microseconds. -/
def ticksFor (microseconds : Nat) : Nat :=
  (microseconds + (Config.tickMicroseconds - 1)) / Config.tickMicroseconds

theorem ticksFor_eq_zero_iff (microseconds : Nat) :
    ticksFor microseconds = 0 ↔ microseconds = 0 := by
  simp only [ticksFor, Config.tickMicroseconds]
  omega

end Clock

end Microkernel
