import Pwatch.Maps.Lookup
import Pwatch.Maps.Sequential

/-!
# Batch resolution

`resolve_many_addresses` looks all addresses up at once and refreshes once for those it has
missed; `resolve` does the same for one address.  Both come down to the same two tables, the
one an unforced call returns and the one a forced call returns behind it.
-/

namespace Pwatch.Maps

open Text

/-! ## What a resolution says -/

/-- The resolution names the region as one that holds the address, and the distance of the
address from its start. -/
structure Names (resolution : AddressResolution) (region : ParsedRegion) (addr : UInt64) :
    Prop where
  region_eq : resolution.region = region.region
  start_le : region.start.toNat ≤ addr.toNat
  lt_stop : addr.toNat < region.stop.toNat
  offset : ∃ offset, HexOf resolution.offset offset ∧ region.start.toNat + offset = addr.toNat

/-- The same, by the texts a client sees. -/
def Locates (resolution : AddressResolution) (addr : UInt64) : Prop :=
  ∃ start stop offset, HexOf resolution.region.start start ∧ HexOf resolution.region.stop stop ∧
    HexOf resolution.offset offset ∧ start ≤ addr.toNat ∧ addr.toNat < stop ∧
      start + offset = addr.toNat

section

variable {regions : List ParsedRegion} {region : ParsedRegion} {addr : UInt64}
  {resolution : AddressResolution}

/-- The subtraction in `resolve_one` does not saturate. -/
theorem names_of_resolveOne (h : resolveOne regions addr = some resolution) :
    ∃ region ∈ regions, Names resolution region addr := by
  obtain ⟨region, hfind, rfl⟩ := Option.map_eq_some_iff.mp h
  have hcontains : region.contains addr = true := by simpa using List.find?_some hfind
  obtain ⟨hle, hlt⟩ := ParsedRegion.contains_iff.mp hcontains
  refine ⟨region, List.mem_of_find?_eq_some hfind, rfl, hle, hlt, _, hexOf_lowerHex _, ?_⟩
  rw [toNat_saturatingSub]
  omega

/-- For a region that was read the texts say the same. -/
theorem Names.locates (h : Names resolution region addr) (hread : Read region) :
    Locates resolution addr := by
  obtain ⟨hstart, hstop⟩ := hread.texts
  obtain ⟨offset, hoffset, hsum⟩ := h.offset
  refine ⟨region.start.toNat, region.stop.toNat, offset, ?_, ?_, hoffset, h.start_le, h.lt_stop,
    hsum⟩
  · rw [h.region_eq, hstart]
    exact hexOf_lowerHex16 _
  · rw [h.region_eq, hstop]
    exact hexOf_lowerHex16 _

theorem map_region_resolveOne (regions : List ParsedRegion) (addr : UInt64) :
    (resolveOne regions addr).map (fun resolution ↦ resolution.region) =
      (regions.find? fun region ↦ region.contains addr).map fun region ↦ region.region := by
  rw [resolveOne, Option.map_map]
  rfl

end

/-! ## The two tables -/

/-- The regions a call has returned. -/
def found (result : Except Str (List ParsedRegion)) : List ParsedRegion := result.toOption.getD []

/-- The resolution of an address by two tables, the second for what the first has missed. -/
def resolveTwice (first second : List ParsedRegion) (addr : UInt64) : Option AddressResolution :=
  (resolveOne first addr).or (resolveOne second addr)

theorem resolveOne_nil (addr : UInt64) : resolveOne [] addr = none := rfl

theorem fillMissing_eq (first second : List ParsedRegion) (addrs : List UInt64) :
    fillMissing second addrs (resolveAgainstRegions first addrs) =
      addrs.map (resolveTwice first second) := by
  refine List.ext_getElem? fun i ↦ ?_
  rw [fillMissing, resolveAgainstRegions, List.getElem?_mapIdx, List.getElem?_map,
    List.getElem?_map]
  cases addrs[i]? with
  | none => rfl
  | some addr =>
      rw [Option.map_some, Option.map_some, Option.map_some, resolveTwice]
      cases resolveOne first addr <;> rfl

/-- When nothing is missed the second table does not matter. -/
theorem map_resolveTwice_of_all {first : List ParsedRegion} {addrs : List UInt64}
    (h : ¬ (resolveAgainstRegions first addrs).any Option.isNone = true)
    (second : List ParsedRegion) :
    resolveAgainstRegions first addrs = addrs.map (resolveTwice first second) := by
  refine List.map_congr_left fun addr hmem ↦ ?_
  have hsome : resolveOne first addr ≠ none := fun hnone ↦ h (List.any_eq_true.mpr
    ⟨none, hnone ▸ List.mem_map_of_mem hmem, rfl⟩)
  obtain ⟨resolution, hresolution⟩ := Option.ne_none_iff_exists'.mp hsome
  rw [resolveTwice, hresolution, Option.some_or]

section

variable (reading : Except Str (List ParsedRegion)) (world : World) (pid : UInt32)

/-- What the unforced call returns. -/
def firstCall : Except Str (List ParsedRegion) × Cache :=
  regionsWith reading world.cache (world.clock 0) pid false

/-- What the forced call behind it returns. -/
def secondCall : Except Str (List ParsedRegion) × Cache :=
  regionsWith reading (firstCall reading world pid).2 (world.clock 0) pid true

/-- **The batch by the two tables.** -/
theorem exec_resolveManyAddresses (addrs : List UInt64) :
    ((resolveManyAddresses pid addrs).exec reading world).1 =
      addrs.map (resolveTwice (found (firstCall reading world pid).1)
        (found (secondCall reading world pid).1)) := by
  unfold resolveManyAddresses
  split
  · rename_i hempty
    rw [List.isEmpty_iff.mp hempty]
    rfl
  · simp only [Prog.exec]
    rw [← firstCall]
    split
    · simp only [Prog.exec]
      rw [← secondCall]
      cases hsecond : (secondCall reading world pid).1 with
      | ok regions => exact fillMissing_eq _ _ _
      | error message =>
          refine List.map_congr_left fun addr _ ↦ ?_
          rw [resolveTwice, show found (.error message) = [] from rfl, resolveOne_nil,
            Option.or_none]
          rfl
    · rename_i hall
      exact map_resolveTwice_of_all hall _

/-- **One address by the two tables.** -/
theorem exec_resolve (addr : UInt64) :
    ((resolve pid addr).exec reading world).1 =
      (resolveTwice (found (firstCall reading world pid).1) (found (secondCall reading world pid).1)
        addr).map fun resolution ↦ resolution.region := by
  have hlookup : ∀ result : Except Str (List ParsedRegion),
      (result.toOption.bind fun regions ↦
        (regions.find? fun region ↦ region.contains addr).map fun region ↦ region.region) =
      (resolveOne (found result) addr).map fun resolution ↦ resolution.region := by
    intro result
    rw [map_region_resolveOne]
    cases result <;> rfl
  rw [resolveTwice, Option.map_or, ← hlookup, ← hlookup, resolve]
  simp only [Prog.exec]
  refine (congrArg Prod.fst (Prog.exec_bind reading _ _ _)).trans ?_
  simp only [resolveCached, Prog.exec]
  rw [← firstCall]
  cases (firstCall reading world pid).1.toOption.bind fun regions ↦
      (regions.find? fun region ↦ region.contains addr).map fun region ↦ region.region with
  | some region => rfl
  | none => rfl

variable {reading world pid}

/-- A resolution of a batch names a region of one of the tables. -/
theorem names_of_resolveTwice {first second : List ParsedRegion} {addr : UInt64}
    {resolution : AddressResolution} (h : resolveTwice first second addr = some resolution) :
    ∃ region, (region ∈ first ∨ region ∈ second) ∧ Names resolution region addr := by
  rcases Option.or_eq_some_iff.mp h with hfirst | ⟨-, hsecond⟩
  · obtain ⟨region, hmem, hnames⟩ := names_of_resolveOne hfirst
    exact ⟨region, .inl hmem, hnames⟩
  · obtain ⟨region, hmem, hnames⟩ := names_of_resolveOne hsecond
    exact ⟨region, .inr hmem, hnames⟩

theorem forall_found {P : ParsedRegion → Prop} {result : Except Str (List ParsedRegion)}
    (h : ∀ regions, result = .ok regions → ∀ region ∈ regions, P region) :
    ∀ region ∈ found result, P region := by
  cases result with
  | error message => nofun
  | ok regions => exact h regions rfl

/-- The region is one that the cache has for the process, or one that is read. -/
def Source (reading : Except Str (List ParsedRegion)) (cache : Cache) (pid : UInt32)
    (region : ParsedRegion) : Prop :=
  (∃ cached, cache pid = some cached ∧ region ∈ cached.regions) ∨ region ∈ found reading

/-- What is not in the cache was read just now. -/
theorem Source.read {region : ParsedRegion} (h : Source reading world.cache pid region)
    (hreading : KnownRegions reading) (hcache : world.cache.Known) : Read region := by
  rcases h with ⟨cached, hcached, hmem⟩ | hmem
  · exact hcache pid cached hcached region hmem
  · exact forall_found hreading region hmem

/-- The regions of both tables. -/
theorem source_of_mem_calls {region : ParsedRegion}
    (hmem : region ∈ found (firstCall reading world pid).1 ∨
      region ∈ found (secondCall reading world pid).1) :
    Source reading world.cache pid region := by
  let P : UInt32 → ParsedRegion → Prop := Source reading world.cache
  have hcache : ∀ pid cached, world.cache pid = some cached → ∀ region ∈ cached.regions,
      P pid region := fun pid cached hcached region hmem ↦ .inl ⟨cached, hcached, hmem⟩
  have hreading : ∀ regions, reading = .ok regions → ∀ region ∈ regions, P pid region := by
    rintro regions rfl region hmem
    exact .inr hmem
  have hfirst : (∀ regions, (firstCall reading world pid).1 = .ok regions →
        ∀ region ∈ regions, P pid region) ∧
      ∀ pid' cached, (firstCall reading world pid).2 pid' = some cached →
        ∀ region ∈ cached.regions, P pid' region := forall_regionsWith hcache hreading
  have hsecond : ∀ regions, (secondCall reading world pid).1 = .ok regions →
      ∀ region ∈ regions, P pid region := (forall_regionsWith hfirst.2 hreading).1
  rcases hmem with hmem | hmem
  · exact forall_found hfirst.1 region hmem
  · exact forall_found hsecond region hmem

end

/-- **Batch resolution.**  On every cache, clock and maps file a batch resolves each of its
addresses as `resolve` does alone, to a region of the cache or of the file that holds it and the
distance from its start; when the cache holds what was read, the texts say so. -/
theorem batch_agrees (file : Except Str Str) (world : World) (pid : UInt32)
    (addrs : List UInt64) :
    ((resolveManyAddresses pid addrs).exec (file.map readMaps) world).1.length = addrs.length ∧
    ∀ (i : Nat) (addr : UInt64), addrs[i]? = some addr →
      ∃ resolved, ((resolveManyAddresses pid addrs).exec (file.map readMaps) world).1[i]? =
          some resolved ∧
        resolved.map (fun resolution ↦ resolution.region) =
          ((resolve pid addr).exec (file.map readMaps) world).1 ∧
        ∀ resolution, resolved = some resolution →
          (∃ region, Source (file.map readMaps) world.cache pid region ∧
            Names resolution region addr) ∧
          (world.cache.Known → Locates resolution addr) := by
  rw [exec_resolveManyAddresses]
  refine ⟨List.length_map _, fun i addr haddr ↦ ⟨_, ?_, (exec_resolve _ _ _ _).symm, ?_⟩⟩
  · rw [List.getElem?_map, haddr, Option.map_some]
  · intro resolution hresolution
    obtain ⟨region, hmem, hnames⟩ := names_of_resolveTwice hresolution
    have hsource := source_of_mem_calls hmem
    exact ⟨⟨region, hsource, hnames⟩, fun hcache ↦
      hnames.locates (hsource.read (knownRegions_readMaps file) hcache)⟩

end Pwatch.Maps
