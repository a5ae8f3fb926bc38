import Mathlib.Data.Int.Notation

/-!
# Parameters

The constants of `parameters.h` that the modelled functions use.
-/

set_option autoImplicit false

namespace IpSentinel

/-- `MAX_ERRORS`: upper bound of allowed subsequent failures. -/
def maxErrors : Nat := 6

/-- `MAX_REQUESTS`: the intended limit of pending ARP replies. -/
def maxRequests : Nat := 511

/-- `ANTIDOS_TIME_BASE`, in seconds. -/
def antidosTimeBase : Int := 10

/-- `ANTIDOS_COUNT_LOW`: requests with lower values are answered. -/
def antidosCountLow : Nat := 20

/-- `ANTIDOS_COUNT_HIGH`: requests with higher values are not answered. -/
def antidosCountHigh : Nat := 80

/-- `ANTIDOS_COUNT_MAX`: the cap of the counter. -/
def antidosCountMax : Nat := 1000

/-- `ANTIDOS_ENTRIES_MAX`. -/
def antidosEntriesMax : Nat := 0x8000

/-- `BLACKLIST_RAND_COUNT`: random MACs used at a time. -/
def blacklistRandCount : Nat := 32

/-- `BLACKLIST_RAND_PERIOD`: seconds after which a new random MAC comes into use. -/
def blacklistRandPeriod : Nat := 30000

end IpSentinel
