import Mathlib.Data.List.Basic

/-!
# The LK1337 driver

The records and constants of `src/lk1337.rs` that the watcher reads.  The driver
itself is code outside the repository: what its calls return is an event of the
systems that use it.
-/

namespace Pwatch.Driver

def bpExecute : Int32 := 0

def bpRead : Int32 := 1

def bpWrite : Int32 := 2

def bpReadwrite : Int32 := 3

def bpFDetail : UInt32 := 1

def bpFBacktrace : UInt32 := 2

def btMax : Nat := 32

/-- `lk1337::Snapshot`: the registers of a thread. -/
structure Snapshot where
  regs : Vector UInt64 31
  sp : UInt64
  pc : UInt64
  vregs : Vector (UInt64 × UInt64) 32
deriving DecidableEq

/-- `lk1337::Hit`: what the driver records when a breakpoint fires. -/
structure Hit where
  pid : Int32
  tid : Int32
  after : Snapshot
  btCount : UInt32
  backtrace : Vector UInt64 32
deriving DecidableEq

end Pwatch.Driver
