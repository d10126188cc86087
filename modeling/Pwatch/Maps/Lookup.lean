import Pwatch.Maps.Region
import Pwatch.Word

/-!
# Lookups in a table of regions

The two directions in `src/maps.rs`: from an address to the region it lies in and to its
display text (`resolveOne`), and from an expression `module+offset` to an address
(`resolveModuleOffset`).
-/

namespace Pwatch.Maps

open Text

/-! ## From addresses to regions -/

/-- `resolve_one`. -/
def resolveOne (regions : List ParsedRegion) (addr : UInt64) : Option AddressResolution :=
  (regions.find? fun region ↦ region.contains addr).map fun region ↦
    let offset := "0x".toList ++ lowerHex (saturatingSub addr region.start).toNat
    let module := moduleLabel region.region
    { region := region.region, module, offset, display := module ++ '+' :: offset }

/-- `resolve_against_regions`. -/
def resolveAgainstRegions (regions : List ParsedRegion) (addrs : List UInt64) :
    List (Option AddressResolution) :=
  addrs.map (resolveOne regions)

/-! ## From expressions to addresses -/

/-- `parse_numeric_addr`. -/
def parseNumericAddr (value : Str) : Option UInt64 :=
  if value = [] then none
  else match (stripPrefix "0x".toList value).or (stripPrefix "0X".toList value) with
    | some hex => (fromStrRadix 16 hex).toOption
    | none =>
        if (bytes value).all fun b ↦ isAsciiHexdigit b.toNat then (fromStrRadix 16 value).toOption
        else none

/-- `parse_module_offset`. -/
def parseModuleOffset (expression : Str) : Except Str (Str × UInt64) :=
  match splitOnce '+' expression with
  | none => .error ("invalid address expression: ".toList ++ expression)
  | some (module, offset) =>
      if trim module = [] then
        .error ("missing module in address expression: ".toList ++ expression)
      else match parseNumericAddr (trim offset) with
        | none => .error ("invalid module offset: ".toList ++ expression)
        | some offset => .ok (trim module, offset)

/-- The rule of `resolve_module_offset`: path, path suffix or base name, in any ASCII
case. -/
def matchesModule (module : Str) (region : ParsedRegion) : Bool :=
  let path := region.region.pathname.getD []
  let lower := toAsciiLowercase path
  let moduleLower := toAsciiLowercase module
  lower == moduleLower || endsWith lower ('/' :: moduleLower) ||
    (fileName path).any fun name ↦ eqIgnoreAsciiCase name module

/-- A region that `resolve_module_offset` may take for a module. -/
def Matches (module : Str) (region : ParsedRegion) : Prop :=
  region.region.pathname.isSome = true ∧ matchesModule module region = true

instance (module : Str) (region : ParsedRegion) : Decidable (Matches module region) :=
  inferInstanceAs (Decidable (_ ∧ _))

/-- What `resolve_module_offset` does with the regions it has got. -/
def moduleAddress (pid : UInt32) (expression module : Str) (offset : UInt64)
    (regions : List ParsedRegion) : Except Str UInt64 :=
  match (regions.filter fun region ↦ region.region.pathname.isSome).find?
      (matchesModule module) with
  | none => .error ("module not found in pid ".toList ++ Nat.toDigits 10 pid.toNat ++
      " maps: ".toList ++ module)
  | some region =>
      match checkedAdd region.start offset with
      | none => .error ("resolved address overflow: ".toList ++ expression)
      | some addr => .ok addr

/-- `resolve_module_offset`.  `regions` is the call of `regions(pid, true)`, which is made
once the expression is parsed. -/
def resolveModuleOffset {m : Type → Type} [Monad m] (regions : m (Except Str (List ParsedRegion)))
    (pid : UInt32) (expression : Str) : m (Except Str UInt64) :=
  match parseModuleOffset expression with
  | .error message => pure (.error message)
  | .ok (module, offset) => do
      let regions ← regions
      return regions.bind (moduleAddress pid expression module offset)

/-! ## Numbers -/

/-- The text of an offset has no whitespace around it. -/
theorem trimmed_hex (n : Nat) : Trimmed ("0x".toList ++ lowerHex n) :=
  trimmed_prefix_append (.inr (.inl rfl)) (lowerHex_ne_nil n) (isNumeral_lowerHex n)

/-- The text of an offset is read back. -/
theorem parseNumericAddr_hex (v : UInt64) :
    parseNumericAddr ("0x".toList ++ lowerHex v.toNat) = some v := by
  rw [parseNumericAddr, if_neg (by simp), stripPrefix_append]
  simp only [Option.some_or, fromStrRadix_lowerHex]
  rfl

/-- The text of a resolution is read back as its label and its offset. -/
theorem parseModuleOffset_display {label : Str} (hplus : '+' ∉ label) (htrimmed : Trimmed label)
    (hne : label ≠ []) (v : UInt64) :
    parseModuleOffset (label ++ '+' :: ("0x".toList ++ lowerHex v.toNat)) = .ok (label, v) := by
  rw [parseModuleOffset, splitOnce_append hplus]
  simp only [trim_eq_self htrimmed, if_neg hne, trim_eq_self (trimmed_hex _), parseNumericAddr_hex]

/-! ## Labels -/

/-- A label is the base name of the path, or the path. -/
theorem moduleLabel_cases {region : MapRegion} {path : Str} (hpath : region.pathname = some path) :
    fileName path = some (moduleLabel region) ∨ path = moduleLabel region := by
  simp only [moduleLabel, hpath]
  split <;> rename_i hname
  · exact .inl (Option.filter_eq_some_iff.mp hname).1
  · exact .inr rfl

/-- A region matches its own label. -/
theorem matches_moduleLabel {region : ParsedRegion} {path : Str}
    (hpath : region.region.pathname = some path) : Matches (moduleLabel region.region) region := by
  refine ⟨by rw [hpath]; rfl, ?_⟩
  rw [matchesModule, hpath, Option.getD_some]
  rcases moduleLabel_cases hpath with hname | hself
  · simp [hname]
  · simp [← hself]

/-- Whether a region matches depends on its path alone. -/
theorem matches_congr {module : Str} {a b : ParsedRegion}
    (h : a.region.pathname = b.region.pathname) : Matches module a ↔ Matches module b := by
  rw [Matches, matchesModule, h, Matches, matchesModule]

/-! ## First matches -/

/-- The region `moduleAddress` takes. -/
def firstMatch (module : Str) (regions : List ParsedRegion) : Option ParsedRegion :=
  regions.find? fun region ↦ Matches module region

theorem find?_matchesModule (module : Str) (regions : List ParsedRegion) :
    (regions.filter fun region ↦ region.region.pathname.isSome).find? (matchesModule module) =
      firstMatch module regions := by
  rw [List.find?_filter, firstMatch]
  congr

/-- The address is the start of the first match plus the offset. -/
theorem moduleAddress_eq_ok {pid : UInt32} {expression module : Str} {offset addr : UInt64}
    {regions : List ParsedRegion} :
    moduleAddress pid expression module offset regions = .ok addr ↔
      ∃ first, firstMatch module regions = some first ∧
        first.start.toNat + offset.toNat = addr.toNat := by
  rw [moduleAddress, find?_matchesModule]
  cases firstMatch module regions with
  | none => simp
  | some first =>
      simp only [Option.some.injEq, exists_eq_left', ← checkedAdd_eq_some]
      cases checkedAdd first.start offset with
      | none => simp
      | some addr' => simp

/-- `resolve_module_offset` on an expression that is parsed. -/
theorem resolveModuleOffset_of_parsed {regions : List ParsedRegion} {pid : UInt32}
    {expression module : Str} {offset : UInt64}
    (h : parseModuleOffset expression = .ok (module, offset)) :
    resolveModuleOffset (m := Id) (.ok regions) pid expression =
      moduleAddress pid expression module offset regions := by
  rw [resolveModuleOffset, h]
  rfl

/-! ## Tables in kernel order -/

/-- A table as the kernel prints it: sorted by start, no address in two regions. -/
structure KernelOrder (regions : List ParsedRegion) : Prop where
  sorted : regions.Pairwise fun a b ↦ a.start ≤ b.start
  disjoint : regions.Pairwise fun a b ↦ ∀ addr, a.contains addr = true → b.contains addr = false

/-- The first match starts lowest. -/
theorem start_le_of_find? {regions : List ParsedRegion}
    (hsorted : regions.Pairwise fun a b ↦ a.start ≤ b.start) {p : ParsedRegion → Bool}
    {first region : ParsedRegion} (hfirst : regions.find? p = some first)
    (hmem : region ∈ regions) (hp : p region = true) : first.start ≤ region.start := by
  obtain ⟨-, before, after, rfl, hbefore⟩ := List.find?_eq_some_iff_append.mp hfirst
  rcases List.mem_append.mp hmem with hmem | hmem
  · exact absurd hp (by simpa using hbefore region hmem)
  · rcases List.mem_cons.mp hmem with rfl | hmem
    · exact UInt64.le_refl _
    · exact List.rel_of_pairwise_cons (List.pairwise_append.mp hsorted).2.1 hmem

/-- An address lies in one region at most. -/
theorem KernelOrder.find?_contains {regions : List ParsedRegion} (h : KernelOrder regions)
    {region : ParsedRegion} (hmem : region ∈ regions) {addr : UInt64}
    (hcontains : region.contains addr = true) :
    regions.find? (fun region ↦ region.contains addr) = some region := by
  obtain ⟨before, after, rfl⟩ := List.append_of_mem hmem
  refine List.find?_eq_some_iff_append.mpr ⟨hcontains, before, after, rfl, fun other hother ↦ ?_⟩
  have hdisjoint := (List.pairwise_append.mp h.disjoint).2.2 other hother region (.head _) addr
  by_contra hc
  rw [hdisjoint (by simpa using hc)] at hcontains
  cases hcontains

end Pwatch.Maps
