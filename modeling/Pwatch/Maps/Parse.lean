import Pwatch.Maps.Region

/-!
# Reading a maps file

`read_maps` on the content of `/proc/{pid}/maps`.  The texts a client sees for the bounds of
a region are made of the numbers the lookups compare.
-/

namespace Pwatch.Maps

open Text

/-- `parse_maps_line`. -/
def parseMapsLine (line : Str) : Option ParsedRegion :=
  match splitWhitespace line with
  | range :: perms :: offsetRaw :: dev :: inodeRaw :: rest => do
      let inode ← (fromStrRadix 10 inodeRaw).toOption
      let pathname := if rest = [] then none else some ([' '].intercalate rest)
      let (startRaw, endRaw) ← splitOnce '-' range
      let start ← (fromStrRadix 16 startRaw).toOption
      let stop ← (fromStrRadix 16 endRaw).toOption
      let offset ← (fromStrRadix 16 offsetRaw).toOption
      return {
        start
        stop
        region := {
          start := "0x".toList ++ lowerHex16 start.toNat
          stop := "0x".toList ++ lowerHex16 stop.toNat
          perms
          offset := "0x".toList ++ lowerHex offset.toNat
          dev
          inode
          pathname } }
  | _ => none

/-- `read_maps`, once the file is read. -/
def readMaps (content : Str) : List ParsedRegion := (lines content).filterMap parseMapsLine

/-- A region that was read from a maps file. -/
def Read (region : ParsedRegion) : Prop := ∃ line, parseMapsLine line = some region

theorem read_of_mem_readMaps {content : Str} {region : ParsedRegion}
    (h : region ∈ readMaps content) : Read region := by
  obtain ⟨line, -, hline⟩ := List.mem_filterMap.mp h
  exact ⟨line, hline⟩

/-- The texts of a region that was read are made of its bounds. -/
theorem Read.texts {region : ParsedRegion} (h : Read region) :
    region.region.start = "0x".toList ++ lowerHex16 region.start.toNat ∧
      region.region.stop = "0x".toList ++ lowerHex16 region.stop.toNat := by
  obtain ⟨line, hline⟩ := h
  unfold parseMapsLine at hline
  split at hline
  · simp only [Option.bind_eq_bind, Option.bind_eq_some_iff, Option.pure_def,
      Option.some.injEq] at hline
    obtain ⟨-, -, -, -, start, -, stop, -, -, -, rfl⟩ := hline
    exact ⟨rfl, rfl⟩
  · cases hline

end Pwatch.Maps
