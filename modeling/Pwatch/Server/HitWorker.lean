import Pwatch.Maps.Batch
import Pwatch.Server.Pipeline
import Pwatch.Slices

/-!
# The hit worker

The loop body of `spawn_hit_worker`: two batches of addresses are resolved, and what they
return is joined with the sample by index.  Every entry of the hit shows the number of the
sample at its place, and a resolution beside it locates this number and no other.
-/

namespace Pwatch.Server

open Maps Text

/-- The resolutions of the backtrace, if the sample has one. -/
def backtraceResolutions (sample : QueuedSample) :
    Prog (Option (List (Option AddressResolution))) :=
  match sample.data.backtrace with
  | some frames => some <$> resolveManyAddresses sample.pid frames
  | none => pure none

/-- The hit the loop body makes of a sample, and the counter after it. -/
def workerHit (arch : Arch) (nextSeq : UInt64) (timestampMs : Nat) (sample : QueuedSample) :
    Prog (Hit × UInt64) := do
  let regResolutions ← resolveManyAddresses sample.pid sample.data.regs
  let backtraceResolutions ← backtraceResolutions sample
  return Hit.makeHitWithMaps arch nextSeq timestampMs sample.breakpointId sample.data
    regResolutions backtraceResolutions

/-! ## What a batch returns -/

/-- Each resolution of a batch locates the address at its place. -/
def ResolutionsOf (addrs : List UInt64) (resolutions : List (Option AddressResolution)) : Prop :=
  resolutions.length = addrs.length ∧
    ∀ (i : Nat) (addr : UInt64) (resolution : AddressResolution), addrs[i]? = some addr →
      resolutions[i]? = some (some resolution) → Locates resolution addr

section

variable {regions : List ParsedRegion} {addrs : List UInt64}
  {resolutions : List (Option AddressResolution)}

theorem locates_of_resolveOne (hread : ∀ region ∈ regions, Read region) {addr : UInt64}
    {resolution : AddressResolution} (h : resolveOne regions addr = some resolution) :
    Locates resolution addr := by
  obtain ⟨region, hmem, hnames⟩ := names_of_resolveOne h
  exact hnames.locates (hread region hmem)

theorem resolutionsOf_resolveAgainstRegions (hread : ∀ region ∈ regions, Read region) :
    ResolutionsOf addrs (resolveAgainstRegions regions addrs) := by
  refine ⟨List.length_map _, fun i addr resolution haddr h ↦ ?_⟩
  rw [resolveAgainstRegions, List.getElem?_map, haddr, Option.map_some, Option.some.injEq] at h
  exact locates_of_resolveOne hread h

/-- What the second table adds is at its place too. -/
theorem ResolutionsOf.fillMissing (h : ResolutionsOf addrs resolutions)
    (hread : ∀ region ∈ regions, Read region) :
    ResolutionsOf addrs (fillMissing regions addrs resolutions) := by
  refine ⟨by rw [Maps.fillMissing, List.length_mapIdx, h.1], fun i addr resolution haddr hi ↦ ?_⟩
  rw [Maps.fillMissing, List.getElem?_mapIdx, Option.map_eq_some_iff] at hi
  obtain ⟨value, hvalue, hi⟩ := hi
  split at hi
  · rw [haddr, Option.bind_some] at hi
    exact locates_of_resolveOne hread hi
  · exact h.2 i addr resolution haddr (hi ▸ hvalue)

/-- Whatever the cache answers. -/
theorem resolutionsOf_returns {pid : UInt32}
    (h : (resolveManyAddresses pid addrs).Returns resolutions) :
    ResolutionsOf addrs resolutions := by
  unfold resolveManyAddresses at h
  split at h
  · rename_i hempty
    cases h
    rw [List.isEmpty_iff.mp hempty]
    exact ⟨rfl, fun i addr resolution haddr ↦ by cases haddr⟩
  · cases h with
    | now now h =>
        cases h with
        | regionsWith result hresult h =>
            have hfirst : ResolutionsOf addrs
                (resolveAgainstRegions (result.toOption.getD []) addrs) :=
              resolutionsOf_resolveAgainstRegions (forall_found hresult)
            dsimp only at h
            split at h
            · cases h with
              | regionsWith refreshed hrefreshed h =>
                  cases refreshed with
                  | ok regions =>
                      cases h
                      exact hfirst.fillMissing (hrefreshed regions rfl)
                  | error message =>
                      cases h
                      exact hfirst
            · cases h
              exact hfirst

end

/-! ## What a hit says -/

/-- An entry for a register with this value. -/
structure RegisterShows (value : UInt64) (entry : RegisterValue) : Prop where
  text : HexOf entry.value value.toNat
  resolved : ∀ resolution, entry.resolved = some resolution → Locates resolution value
  map : entry.map = entry.resolved.map fun resolution ↦ resolution.region

/-- A frame of a backtrace with this address. -/
structure FrameShows (addr : UInt64) (text : Str) (frame : AddressValue) : Prop where
  text : HexOf text addr.toNat
  frame_text : HexOf frame.value addr.toNat
  resolved : ∀ resolution, frame.resolved = some resolution → Locates resolution addr

/-- The hit shows the sample, each number at its place. -/
structure Reports (arch : Arch) (data : SampleData) (hit : Hit) : Prop where
  length_regs : hit.regs.length = data.regs.length
  regs : ∀ (i : Nat) (value : UInt64), data.regs[i]? = some value →
    ∃ entry, hit.regs[i]? = some entry ∧ entry.name = arch.idToStr i ∧ RegisterShows value entry
  no_backtrace : data.backtrace = none → hit.backtrace = none ∧ hit.backtraceFrames = none
  backtrace : ∀ addrs, data.backtrace = some addrs → ∃ texts frames,
    hit.backtrace = some texts ∧ hit.backtraceFrames = some frames ∧
      texts.length = addrs.length ∧ frames.length = addrs.length ∧
        ∀ (i : Nat) (addr : UInt64), addrs[i]? = some addr → ∃ text frame,
          texts[i]? = some text ∧ frames[i]? = some frame ∧ FrameShows addr text frame
  length_simd : hit.simd.length = 2 * data.simd.length
  simd : ∀ (k : Nat) (low high : UInt64), data.simd[k]? = some (low, high) → ∃ lowEntry highEntry,
    hit.simd[2 * k]? = some lowEntry ∧ hit.simd[2 * k + 1]? = some highEntry ∧
      HexOf lowEntry.value low.toNat ∧ HexOf highEntry.value high.toNat

theorem hexOf_hexText (value : UInt64) : HexOf (Hit.hexText value) value.toNat :=
  hexOf_lowerHex16 _

section

variable {addrs : List UInt64} {resolutions : List (Option AddressResolution)} {i : Nat}
  {addr : UInt64}

/-- An entry takes the resolution at its own index. -/
theorem registerShows_makeRegister (arch : Arch) (h : ResolutionsOf addrs resolutions)
    (haddr : addrs[i]? = some addr) :
    RegisterShows addr (Hit.makeRegister arch resolutions i addr) where
  text := hexOf_hexText addr
  resolved resolution hresolution := by
    refine h.2 i addr resolution haddr ?_
    cases hi : resolutions[i]? with
    | none => simp [Hit.makeRegister, hi] at hresolution
    | some resolved =>
        rw [Hit.makeRegister, hi] at hresolution
        exact congrArg some hresolution
  map := by
    simp only [Hit.makeRegister]
    cases resolutions[i]? <;> rfl

theorem frameShows_makeFrame (h : ResolutionsOf addrs resolutions)
    (haddr : addrs[i]? = some addr) :
    FrameShows addr (Hit.hexText addr) (Hit.makeFrame (some resolutions) i addr) where
  text := hexOf_hexText addr
  frame_text := hexOf_hexText addr
  resolved resolution hresolution := by
    refine h.2 i addr resolution haddr ?_
    simp only [Hit.makeFrame, Option.bind_some] at hresolution
    exact Option.join_eq_some_iff.mp hresolution

end

/-- **The join by index.** -/
theorem reports_makeHitWithMaps {arch : Arch} {nextSeq : UInt64} {timestampMs : Nat}
    {breakpointId : UInt64} {data : SampleData}
    {regResolutions : List (Option AddressResolution)}
    {backtraceResolutions : Option (List (Option AddressResolution))}
    (hregs : ResolutionsOf data.regs regResolutions)
    (hframes : ∀ addrs, data.backtrace = some addrs →
      ∃ resolutions, backtraceResolutions = some resolutions ∧ ResolutionsOf addrs resolutions) :
    Reports arch data (Hit.makeHitWithMaps arch nextSeq timestampMs breakpointId data
      regResolutions backtraceResolutions).1 := by
  let pieces : List (List RegisterValue) := data.simd.mapIdx fun index value ↦
    [Hit.makeSimdRegister index "lo".toList value.1, Hit.makeSimdRegister index "hi".toList value.2]
  have hpieces : ∀ piece ∈ pieces, piece.length = 2 := by
    intro piece hpiece
    obtain ⟨index, hindex, rfl⟩ := List.mem_mapIdx.mp hpiece
    rfl
  constructor
  case length_regs => exact List.length_mapIdx
  case regs =>
    intro i value hvalue
    refine ⟨Hit.makeRegister arch regResolutions i value, ?_, rfl,
      registerShows_makeRegister arch hregs hvalue⟩
    rw [Hit.makeHitWithMaps, List.getElem?_mapIdx, hvalue, Option.map_some]
  case no_backtrace =>
    intro hnone
    rw [Hit.makeHitWithMaps, hnone]
    exact ⟨rfl, rfl⟩
  case backtrace =>
    intro addrs haddrs
    obtain ⟨resolutions, rfl, hresolutions⟩ := hframes addrs haddrs
    refine ⟨addrs.map Hit.hexText, addrs.mapIdx (Hit.makeFrame (some resolutions)),
      by rw [Hit.makeHitWithMaps, haddrs]; rfl, by rw [Hit.makeHitWithMaps, haddrs]; rfl,
      List.length_map _, List.length_mapIdx, fun i addr haddr ↦ ?_⟩
    refine ⟨Hit.hexText addr, Hit.makeFrame (some resolutions) i addr, ?_, ?_,
      frameShows_makeFrame hresolutions haddr⟩
    · rw [List.getElem?_map, haddr, Option.map_some]
    · rw [List.getElem?_mapIdx, haddr, Option.map_some]
  case length_simd =>
    exact (length_flatten_of_forall hpieces).trans (congrArg (2 * ·) List.length_mapIdx)
  case simd =>
    intro k low high hk
    have hpiece : pieces[k]? = some [Hit.makeSimdRegister k "lo".toList low,
        Hit.makeSimdRegister k "hi".toList high] := by
      rw [List.getElem?_mapIdx, hk, Option.map_some]
    exact ⟨_, _, getElem?_flatten_of_forall hpieces hpiece Nat.two_pos,
      getElem?_flatten_of_forall hpieces hpiece Nat.one_lt_two, hexOf_hexText low,
      hexOf_hexText high⟩

/-- The loop body makes a hit that shows its sample. -/
theorem reports_of_returns {arch : Arch} {nextSeq : UInt64} {timestampMs : Nat}
    {sample : QueuedSample} {result : Hit × UInt64}
    (h : (workerHit arch nextSeq timestampMs sample).Returns result) :
    ∃ regResolutions backtraceResolutions,
      result = Hit.makeHitWithMaps arch nextSeq timestampMs sample.breakpointId sample.data
        regResolutions backtraceResolutions ∧ Reports arch sample.data result.1 := by
  obtain ⟨regResolutions, hregs, h⟩ := Prog.Returns.of_bind h
  obtain ⟨backtraceResolutions, hframes, h⟩ := Prog.Returns.of_bind h
  cases h
  refine ⟨regResolutions, backtraceResolutions, rfl,
    reports_makeHitWithMaps (resolutionsOf_returns hregs) fun addrs haddrs ↦ ?_⟩
  rw [Server.backtraceResolutions, haddrs] at hframes
  obtain ⟨resolutions, hresolutions, hframes⟩ := Prog.Returns.of_bind hframes
  cases hframes
  exact ⟨resolutions, rfl, resolutionsOf_returns hresolutions⟩

/-- The pipeline numbers samples as the loop body does. -/
theorem Pipeline.step_of_returns {arch : Arch} {limit : Nat} {s : Pipeline} {timestampMs : Nat}
    {sample : QueuedSample} {hit : Hit} {nextSeq : UInt64} (hw : s.worker = .received sample)
    (h : (workerHit arch s.nextSeq timestampMs sample).Returns (hit, nextSeq)) :
    Pipeline.Step arch limit s (.numbered sample hit)
      { s with nextSeq, worker := .numbered hit } := by
  obtain ⟨regResolutions, backtraceResolutions, hmake, -⟩ := reports_of_returns h
  exact .number hw hmake.symm

/-- **A hit reports its sample.**  Whatever the calls of the maps cache return, the hit the
worker makes of a sample shows it, and is one that the pipeline can number; and with nobody else
about they return something, on every cache that holds what was read and every maps file. -/
theorem hit_reports_sample (arch : Arch) (nextSeq : UInt64) (timestampMs : Nat)
    (sample : QueuedSample) :
    (∀ hit nextSeq', (workerHit arch nextSeq timestampMs sample).Returns (hit, nextSeq') →
      Reports arch sample.data hit ∧ ∀ (limit : Nat) (s : Pipeline),
        s.worker = .received sample → s.nextSeq = nextSeq → Pipeline.Step arch limit s
          (.numbered sample hit) { s with nextSeq := nextSeq', worker := .numbered hit }) ∧
    ∀ file : Except Str Str, ∀ world : World, world.cache.Known →
      Reports arch sample.data
        ((workerHit arch nextSeq timestampMs sample).exec (file.map readMaps) world).1.1 := by
  have hreports : ∀ result, (workerHit arch nextSeq timestampMs sample).Returns result →
      Reports arch sample.data result.1 := fun result h ↦ by
    obtain ⟨-, -, -, hr⟩ := reports_of_returns h
    exact hr
  refine ⟨fun hit nextSeq' h ↦ ⟨hreports (hit, nextSeq') h, ?_⟩, fun file world hcache ↦
    hreports _ (Prog.returns_exec (knownRegions_readMaps file) _ world hcache).1⟩
  rintro limit s hw rfl
  exact Pipeline.step_of_returns hw h

end Pwatch.Server
