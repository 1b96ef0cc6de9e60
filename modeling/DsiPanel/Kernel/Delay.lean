/-!
# Delays

The wait after an operation becomes a sleep statement. A sleep of few milliseconds is asked for as
a range of microseconds that may run over by one millisecond; from the threshold on the coarse
sleep is exact enough.
-/

namespace DsiPanel

/-- Waits of at least this many milliseconds use the coarse sleep. -/
def coarseSleepThreshold : Nat := 20

/-- The call that sleeps for `ms` milliseconds. -/
def sleepCall (ms : Nat) : String :=
  if coarseSleepThreshold ≤ ms then s!"msleep({ms})"
  else s!"usleep_range({ms * 1000}, {ms * 1000 + 1000})"

/-- The milliseconds to sleep after an operation: none for no wait, and none up to the threshold
below which waits are ignored. -/
def effectiveDelay? (ignoreWait : Nat) (wait : UInt8) : Option Nat :=
  if wait.toNat = 0 ∨ wait.toNat ≤ ignoreWait then none else some wait.toNat

/-- The sleep statement on its line. -/
def delayLine (ms : Nat) : String := s!"\t{sleepCall ms};"

end DsiPanel
