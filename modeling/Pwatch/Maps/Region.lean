import Pwatch.Text.Number

/-!
# Mapped regions

The records `src/maps.rs` keeps about the mappings of a process, and the labels
it makes of them.  `ParsedRegion` holds the bounds as numbers next to the
`MapRegion` that is shown to a client.
-/

namespace Pwatch.Maps

open Text

/-- `MapRegion`: one line of a maps file, as a client sees it. -/
structure MapRegion where
  start : Str
  /-- The field `end` of the source. -/
  stop : Str
  perms : Str
  offset : Str
  dev : Str
  inode : UInt64
  pathname : Option Str
deriving DecidableEq, Repr, Inhabited

/-- `AddressResolution`. -/
structure AddressResolution where
  region : MapRegion
  module : Str
  offset : Str
  display : Str
deriving DecidableEq, Repr, Inhabited

/-- `ParsedRegion`. -/
structure ParsedRegion where
  start : UInt64
  /-- The field `end` of the source. -/
  stop : UInt64
  region : MapRegion
deriving DecidableEq, Repr, Inhabited

/-- `ResolvedAddress`. -/
structure ResolvedAddress where
  expression : Str
  address : Str
  value : UInt64
  map : Option MapRegion
deriving DecidableEq, Repr, Inhabited

/-- The test both lookups make: `region.start <= addr && addr < region.end`. -/
def ParsedRegion.contains (region : ParsedRegion) (addr : UInt64) : Bool :=
  region.start ≤ addr && addr < region.stop

theorem ParsedRegion.contains_iff {region : ParsedRegion} {addr : UInt64} :
    region.contains addr = true ↔
      region.start.toNat ≤ addr.toNat ∧ addr.toNat < region.stop.toNat := by
  simp [contains, UInt64.le_iff_toNat_le, UInt64.lt_iff_toNat_lt]

/-- The pieces of a path between its slashes. -/
def pathPieces : Str → List Str
  | [] => [[]]
  | c :: path =>
      match pathPieces path with
      | [] => [[c]]
      | piece :: rest => if c = '/' then [] :: piece :: rest else (c :: piece) :: rest

/-- `Path::file_name`: the last component of the path, unless that is `..`.
Empty pieces and `.` are not components in the last place. -/
def fileName (path : Str) : Option Str :=
  ((pathPieces path).filter fun piece ↦ piece ≠ [] ∧ piece ≠ ['.']).getLast?.filter
    (· ≠ ['.', '.'])

/-- `module_label`. -/
def moduleLabel (region : MapRegion) : Str :=
  match region.pathname with
  | some path =>
      match (fileName path).filter (· ≠ []) with
      | some name => name
      | none => path
  | none => region.start ++ '-' :: region.stop

end Pwatch.Maps
