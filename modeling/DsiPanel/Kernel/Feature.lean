/-!
# Features

Declarations that a function body with the generated statements needs around it. Each statement
knows which it needs from what it does, so the generated text is never searched. A set of features
is listed in one fixed order.
-/

namespace DsiPanel

inductive Feature where
  /-- A variable for the result of a checked call. -/
  | returnValue
  /-- The device that errors are reported for. -/
  | deviceHandle
  /-- The header with the names of display commands. -/
  | displayHeader
  /-- The header with the sleep functions. -/
  | delay
deriving DecidableEq, Repr

namespace Feature

def all : List Feature := [returnValue, deviceHandle, displayHeader, delay]

def name : Feature → String
  | returnValue => "ReturnValue"
  | deviceHandle => "DeviceHandle"
  | displayHeader => "MipiDisplayHeader"
  | delay => "Delay"

/-- The line that provides the feature. -/
def declaration : Feature → String
  | returnValue => "int ret;"
  | deviceHandle => "struct device *dev = &dsi->dev;"
  | displayHeader => "#include <video/mipi_display.h>"
  | delay => "#include <linux/delay.h>"

end Feature

structure Features where
  returnValue : Bool := false
  deviceHandle : Bool := false
  displayHeader : Bool := false
  delay : Bool := false
deriving DecidableEq, Repr

namespace Features

def empty : Features := {}

def contains (set : Features) : Feature → Bool
  | .returnValue => set.returnValue
  | .deviceHandle => set.deviceHandle
  | .displayHeader => set.displayHeader
  | .delay => set.delay

def union (a b : Features) : Features where
  returnValue := a.returnValue || b.returnValue
  deviceHandle := a.deviceHandle || b.deviceHandle
  displayHeader := a.displayHeader || b.displayHeader
  delay := a.delay || b.delay

/-- The features of the set in their order. -/
def toList (set : Features) : List Feature := Feature.all.filter set.contains

@[simp] theorem contains_empty (f : Feature) : empty.contains f = false := by
  cases f <;> rfl

theorem contains_union (a b : Features) (f : Feature) :
    (a.union b).contains f = (a.contains f || b.contains f) := by
  cases f <;> rfl

theorem mem_toList (set : Features) (f : Feature) : f ∈ set.toList ↔ set.contains f = true := by
  cases f <;> simp [toList, Feature.all]

end Features

end DsiPanel
