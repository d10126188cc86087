import Pwatch.Maps.Lookup

/-!
# Displayed module offsets

`resolve_one` counts the offset from the region the address lies in,
`resolve_module_offset` adds it to the first region of the module.  So the text of a
resolution leads back to its address exactly in the first mapping of a file.
-/

namespace Pwatch.Maps

open Text

variable {regions : List ParsedRegion} {region : ParsedRegion} {addr : UInt64}

/-- The resolution of an address in a region. -/
theorem KernelOrder.resolveOne (h : KernelOrder regions) (hmem : region ∈ regions)
    (hcontains : region.contains addr = true) :
    ∃ offset : UInt64, region.start.toNat + offset.toNat = addr.toNat ∧
      (resolveOne regions addr).map (fun resolution ↦ resolution.display) =
        some (moduleLabel region.region ++ '+' :: ("0x".toList ++ lowerHex offset.toNat)) := by
  refine ⟨saturatingSub addr region.start, ?_, ?_⟩
  · rw [toNat_saturatingSub]
    exact Nat.add_sub_cancel' (ParsedRegion.contains_iff.mp hcontains).1
  · rw [Maps.resolveOne, h.find?_contains hmem hcontains]
    rfl

/-- A display text without a label is refused. -/
theorem resolveModuleOffset_no_label (pid : UInt32) (offset : Str) :
    resolveModuleOffset (m := Id) (.ok regions) pid ('+' :: offset) =
      .error ("missing module in address expression: ".toList ++ '+' :: offset) := by
  have hparse : parseModuleOffset ('+' :: offset) =
      .error ("missing module in address expression: ".toList ++ '+' :: offset) := rfl
  rw [resolveModuleOffset, hparse]
  rfl

/-- **Displayed offsets resolve back** exactly when the region is the first mapping of its
file (and has a label at all). -/
theorem display_resolves_back_iff (hkernel : KernelOrder regions) (hmem : region ∈ regions)
    {path : Str} (hpath : region.region.pathname = some path)
    (hcontains : region.contains addr = true) (hplus : '+' ∉ moduleLabel region.region)
    (htrimmed : Trimmed (moduleLabel region.region))
    (hshared : ∀ a ∈ regions, ∀ b ∈ regions, Matches (moduleLabel region.region) a →
      Matches (moduleLabel region.region) b → a.region.pathname = b.region.pathname)
    {resolution : AddressResolution} (hresolved : resolveOne regions addr = some resolution)
    (pid : UInt32) :
    resolveModuleOffset (m := Id) (.ok regions) pid resolution.display = .ok addr ↔
      moduleLabel region.region ≠ [] ∧
        ∀ other ∈ regions, other.region.pathname = some path → region.start ≤ other.start := by
  obtain ⟨offset, hoffset, hdisplay⟩ := hkernel.resolveOne hmem hcontains
  rw [hresolved, Option.map_some, Option.some.injEq] at hdisplay
  have hmatch := matches_moduleLabel hpath
  rw [hdisplay]
  by_cases hlabel : moduleLabel region.region = []
  · rw [hlabel, List.nil_append, resolveModuleOffset_no_label]
    exact iff_of_false nofun fun h ↦ h.1 rfl
  · rw [resolveModuleOffset_of_parsed (parseModuleOffset_display hplus htrimmed hlabel offset),
      moduleAddress_eq_ok]
    obtain ⟨first, hfirst⟩ : ∃ first, firstMatch (moduleLabel region.region) regions = some first :=
      Option.isSome_iff_exists.mp (List.find?_isSome.mpr ⟨region, hmem, by simpa using hmatch⟩)
    have hlowest : ∀ other ∈ regions, Matches (moduleLabel region.region) other →
        first.start ≤ other.start := fun other hother hm ↦
      start_le_of_find? hkernel.sorted hfirst hother (by simpa using hm)
    have hstarts : first.start.toNat + offset.toNat = addr.toNat ↔ first.start = region.start := by
      rw [← UInt64.toNat_inj, ← hoffset, Nat.add_right_cancel_iff]
    constructor
    · rintro ⟨first', hfirst', haddr⟩
      rw [hfirst, Option.some.injEq] at hfirst'
      subst hfirst'
      refine ⟨hlabel, fun other hother hpath' ↦ ?_⟩
      rw [← hstarts.mp haddr]
      exact hlowest other hother ((matches_congr (hpath'.trans hpath.symm)).mpr hmatch)
    · rintro ⟨-, hfirstMapping⟩
      refine ⟨first, hfirst, hstarts.mpr ?_⟩
      have hmem' : first ∈ regions := List.mem_of_find?_eq_some hfirst
      have hmatch' : Matches (moduleLabel region.region) first := by
        simpa using List.find?_some hfirst
      have hpath' := (hshared first hmem' region hmem hmatch' hmatch).trans hpath
      exact UInt64.le_antisymm (hlowest region hmem hmatch) (hfirstMapping first hmem' hpath')

/-- Regions one behind the other are disjoint. -/
theorem contains_eq_false_of_le {a b : ParsedRegion} (h : a.stop ≤ b.start) {addr : UInt64}
    (ha : a.contains addr = true) : b.contains addr = false := by
  have hb : ¬ b.contains addr = true := by
    rw [ParsedRegion.contains_iff] at ha ⊢
    rw [UInt64.le_iff_toNat_le] at h
    omega
  simpa using hb

/-- Regions of which each ends before the next one starts. -/
theorem kernelOrder_of_stop_le (hsorted : regions.Pairwise fun a b ↦ a.start ≤ b.start)
    (hstop : regions.Pairwise fun a b ↦ a.stop ≤ b.start) : KernelOrder regions :=
  ⟨hsorted, hstop.imp fun hle _ ↦ contains_eq_false_of_le hle⟩

/-- A mapping of a library. -/
def segment (start stop : UInt64) : ParsedRegion :=
  ⟨start, stop, ⟨[], [], "r-xp".toList, [], [], 0, some "/lib/a.so".toList⟩⟩

/-- An address in the first of two mappings of a library, with another library behind them. -/
theorem display_resolves_back_iff_first : ∃ other : ParsedRegion,
    other.region.pathname = some "/lib/b.so".toList ∧
      resolveModuleOffset (m := Id)
        (.ok [segment 0x1000 0x2000, segment 0x2000 0x3000, other]) 7 "a.so+0x234".toList =
          .ok 0x1234 := by
  let text := segment 0x1000 0x2000
  let data := segment 0x2000 0x3000
  let other : ParsedRegion :=
    ⟨0x4000, 0x5000, ⟨[], [], "r-xp".toList, [], [], 0, some "/lib/b.so".toList⟩⟩
  refine ⟨other, rfl, ?_⟩
  have hresolved : resolveOne [text, data, other] 0x1234 = some ⟨text.region, "a.so".toList,
      "0x234".toList, "a.so+0x234".toList⟩ := by decide
  have hkernel : KernelOrder [text, data, other] :=
    kernelOrder_of_stop_le (by decide) (by decide)
  have hshared : ∀ a ∈ [text, data, other], ∀ b ∈ [text, data, other],
      Matches (moduleLabel text.region) a → Matches (moduleLabel text.region) b →
        a.region.pathname = b.region.pathname := by decide
  exact (display_resolves_back_iff hkernel (.head _) rfl rfl (by decide) (by decide) hshared
    hresolved 7).mpr ⟨by decide, by decide⟩

/-- An address in the second mapping of a library. -/
theorem not_display_resolves_back :
    ¬ ∀ (regions : List ParsedRegion) (region : ParsedRegion) (path : Str) (addr : UInt64)
      (resolution : AddressResolution) (pid : UInt32),
      KernelOrder regions → region ∈ regions → region.region.pathname = some path →
      region.contains addr = true → '+' ∉ moduleLabel region.region →
      Trimmed (moduleLabel region.region) →
      (∀ a ∈ regions, ∀ b ∈ regions, Matches (moduleLabel region.region) a →
        Matches (moduleLabel region.region) b → a.region.pathname = b.region.pathname) →
      resolveOne regions addr = some resolution →
        resolveModuleOffset (m := Id) (.ok regions) pid resolution.display = .ok addr := by
  intro hclaim
  let text := segment 0x1000 0x2000
  let data := segment 0x2000 0x3000
  have hkernel : KernelOrder [text, data] := kernelOrder_of_stop_le (by decide) (by decide)
  have hresolved : resolveOne [text, data] 0x2234 = some ⟨data.region, "a.so".toList,
      "0x234".toList, "a.so+0x234".toList⟩ := by decide
  have hshared : ∀ a ∈ [text, data], ∀ b ∈ [text, data], Matches (moduleLabel data.region) a →
      Matches (moduleLabel data.region) b → a.region.pathname = b.region.pathname := by
    simp [text, data, segment]
  have hback := hclaim [text, data] data _ 0x2234 _ 7 hkernel (by simp) rfl rfl (by decide)
    (by decide) hshared hresolved
  have hparse : parseModuleOffset "a.so+0x234".toList = .ok ("a.so".toList, 0x234) := by decide
  have hdata : moduleAddress 7 "a.so+0x234".toList "a.so".toList 0x234 [text, data] = .ok 0x2234 :=
    (resolveModuleOffset_of_parsed hparse).symm.trans hback
  -- the offset is added to the start of `text`
  have htext : moduleAddress 7 "a.so+0x234".toList "a.so".toList 0x234 [text, data] =
      .ok 0x1234 := by decide
  exact absurd (htext.symm.trans hdata) (by decide)

end Pwatch.Maps
