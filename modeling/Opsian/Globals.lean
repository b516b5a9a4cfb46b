/-! # Times

What `globals.h` declares for all components. -/
namespace Opsian.Globals

/-- A `timespec`; the words are signed. -/
structure Timespec where
  tvSec : Int64
  tvNsec : Int64
  deriving DecidableEq, Repr

def toMillis (timestamp : Timespec) : Int64 :=
  timestamp.tvSec * 1000 + timestamp.tvNsec / 1000000

end Opsian.Globals
