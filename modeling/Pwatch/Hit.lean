import Pwatch.Arch
import Pwatch.Maps.Region

/-!
# Hits

A watcher hands over a `SampleData`; the hit worker turns it into the numbered
`Hit` a client sees.  The values of the registers and their resolutions travel in
two lists and are joined by index in `makeHitWithMaps`.
-/

namespace Pwatch

open Text Maps

/-- `perf::SampleData`.  A vector register is the pair of its low and high half. -/
structure SampleData where
  pid : UInt32
  tid : UInt32
  regs : List UInt64
  backtrace : Option (List UInt64)
  simd : List (UInt64 × UInt64)
deriving DecidableEq, Repr, Inhabited

/-- `RegisterValue`. -/
structure RegisterValue where
  name : Str
  value : Str
  map : Option MapRegion
  resolved : Option AddressResolution
  display : Str
deriving DecidableEq, Repr

/-- `AddressValue`. -/
structure AddressValue where
  value : Str
  resolved : Option AddressResolution
  display : Str
deriving DecidableEq, Repr

/-- `hit::Hit`. -/
structure Hit where
  seq : UInt64
  breakpointId : UInt64
  pid : UInt32
  tid : UInt32
  timestampMs : Nat
  regs : List RegisterValue
  simd : List RegisterValue
  backtrace : Option (List Str)
  backtraceFrames : Option (List AddressValue)
deriving DecidableEq, Repr

namespace Hit

/-- `format!("0x{value:016x}")`. -/
def hexText (value : UInt64) : Str := "0x".toList ++ lowerHex16 value.toNat

/-- `display_address`. -/
def displayAddress (addr : UInt64) (resolved : Option AddressResolution) : Str :=
  match resolved with
  | some resolved => hexText addr ++ " (".toList ++ resolved.display ++ ")".toList
  | none => hexText addr

/-- `make_simd_register`. -/
def makeSimdRegister (index : Nat) (part : Str) (value : UInt64) : RegisterValue where
  name := 'v' :: (Nat.toDigits 10 index ++ '.' :: part)
  value := hexText value
  map := none
  resolved := none
  display := hexText value

/-- The register entry `make_hit_with_maps` builds at index `idx`. -/
def makeRegister (arch : Arch) (resolutions : List (Option AddressResolution)) (idx : Nat)
    (value : UInt64) : RegisterValue where
  name := arch.idToStr idx
  value := hexText value
  map := resolutions[idx]?.join.map (·.region)
  resolved := resolutions[idx]?.getD none
  display := displayAddress value resolutions[idx]?.join

/-- The backtrace frame `make_hit_with_maps` builds at index `idx`. -/
def makeFrame (resolutions : Option (List (Option AddressResolution))) (idx : Nat)
    (addr : UInt64) : AddressValue :=
  let resolved := (resolutions.bind fun resolutions ↦ resolutions[idx]?).join
  { value := hexText addr, display := displayAddress addr resolved, resolved }

/-- `make_hit_with_maps`: the hit, and the counter `next_seq` after it.  The clock
reading is a parameter. -/
def makeHitWithMaps (arch : Arch) (nextSeq : UInt64) (timestampMs : Nat) (breakpointId : UInt64)
    (data : SampleData) (regResolutions : List (Option AddressResolution))
    (backtraceResolutions : Option (List (Option AddressResolution))) : Hit × UInt64 :=
  ({ seq := nextSeq + 1
     breakpointId
     pid := data.pid
     tid := data.tid
     timestampMs
     regs := data.regs.mapIdx (makeRegister arch regResolutions)
     simd := (data.simd.mapIdx fun index value ↦
       [makeSimdRegister index "lo".toList value.1,
        makeSimdRegister index "hi".toList value.2]).flatten
     backtrace := data.backtrace.map fun frames ↦ frames.map hexText
     backtraceFrames := data.backtrace.map fun frames ↦
       frames.mapIdx (makeFrame backtraceResolutions) },
   nextSeq + 1)

end Hit

end Pwatch
