import Scanout.Error

namespace Scanout

structure Config where
  defaultTimeout : UInt64 := 1000000
  priorityPeriod : UInt32 := 60
  deriving DecidableEq, Repr, Inhabited

namespace Config

def default : Config := {}

def withDefaultTimeout (c : Config) (nanos : UInt64) : Config := { c with defaultTimeout := nanos }

/-- The settings with another priority period, which must not be zero. -/
def withPriorityPeriod (c : Config) (applies : UInt32) : Except Fault Config :=
  if applies = 0 then .error .zeroPriorityPeriod else .ok { c with priorityPeriod := applies }

def label (c : Config) : String :=
  "AllocatorConfig \x7b default_timeout_ns: " ++ toString c.defaultTimeout ++
    ", priority_period: " ++ toString c.priorityPeriod ++ " \x7d"

end Config

structure ApplyOptions where
  /-- Nanoseconds for the search; nothing or zero leaves it to the device's settings. -/
  timeout : Option UInt64 := none
  deriving DecidableEq, Repr, Inhabited

def ApplyOptions.searchTime (o : ApplyOptions) (c : Config) : UInt64 :=
  match o.timeout with
  | some nanos => if nanos = 0 then c.defaultTimeout else nanos
  | none => c.defaultTimeout

end Scanout
