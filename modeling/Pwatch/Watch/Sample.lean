import Pwatch.Driver
import Pwatch.Filter.Parser

/-!
# From driver hits to samples

The body of the polling loop of `start_driver_watch`: every hit the driver returns
is turned into a sample, and the samples that pass the filter are handed to
`on_hit` in order.
-/

namespace Pwatch.Watch

open Driver Pwatch.Filter

/-- The sample made from a driver hit: the general registers, then `sp` and `pc`. -/
def sampleOf (hit : Driver.Hit) : SampleData :=
  let regs := hit.after.regs.toList ++ [hit.after.sp] ++ [hit.after.pc]
  let count := min hit.btCount.toNat btMax
  { pid := hit.pid.toUInt32
    tid := hit.tid.toUInt32
    regs
    backtrace := if count > 0 then some (hit.backtrace.toList.take count) else none
    simd := hit.after.vregs.toList }

/-- The samples `on_hit` is called with for the hits of one poll. -/
def deliver (filter : Option RegFilter) (hits : List Driver.Hit) : List SampleData :=
  (hits.map sampleOf).filter fun data ↦ filter.all fun filter ↦ filter.matches data

theorem deliver_append (filter : Option RegFilter) (hits hits' : List Driver.Hit) :
    deliver filter (hits ++ hits') = deliver filter hits ++ deliver filter hits' := by
  rw [deliver, List.map_append, List.filter_append]
  rfl

theorem deliver_cons (filter : RegFilter) (hit : Driver.Hit) (hits : List Driver.Hit) :
    deliver (some filter) (hit :: hits) =
      if filter.matches (sampleOf hit) then sampleOf hit :: deliver (some filter) hits
      else deliver (some filter) hits := by
  rw [deliver, List.map_cons, List.filter_cons]
  rfl

end Pwatch.Watch
