import Pwatch.Maps.CacheLaws
import Pwatch.Maps.Parse

/-!
# The maps cache alone

Two readings of a program over the maps cache.  `exec` runs it with nobody else about, on a
cache, a clock and one reading of the maps file.  `Returns` leaves open what each call of
`regions_with` returns, so it also covers callers that act in between and files that change;
what `exec` returns is one of its results.
-/

namespace Pwatch.Maps

open Text

/-- `regions_with`, with nobody else about: what it returns, and the cache it leaves.
`reading` is what `read_maps` returns. -/
def regionsWith (reading : Except Str (List ParsedRegion)) (cache : Cache) (now : Instant)
    (pid : UInt32) (forceRefresh : Bool) : Except Str (List ParsedRegion) × Cache :=
  match lookup cache now pid forceRefresh with
  | some regions => (.ok regions, cache)
  | none =>
      match reading with
      | .error message => (.error message, cache)
      | .ok regions => (.ok (refreshed cache now pid forceRefresh regions),
          refresh cache now pid forceRefresh regions)

/-- The readings of the clock that are still to come, and the cache. -/
structure World where
  clock : Nat → Instant
  cache : Cache

/-- Every region in the cache was read. -/
def Cache.Known (cache : Cache) : Prop :=
  ∀ pid cached, cache pid = some cached → ∀ region ∈ cached.regions, Read region

/-- Every region that a call has returned was read. -/
def KnownRegions (result : Except Str (List ParsedRegion)) : Prop :=
  ∀ regions, result = .ok regions → ∀ region ∈ regions, Read region

namespace Prog

variable {α β : Type}

/-- What a program returns, and the world it leaves. -/
def exec (reading : Except Str (List ParsedRegion)) : Prog α → World → α × World
  | .done value, world => (value, world)
  | .now next, world =>
      (next (world.clock 0)).exec reading { world with clock := fun n ↦ world.clock (n + 1) }
  | .regionsWith t pid forceRefresh next, world =>
      let result := Maps.regionsWith reading world.cache t pid forceRefresh
      (next result.1).exec reading { world with cache := result.2 }

/-- A program may return the value, when `regions_with` returns regions that were read. -/
inductive Returns : Prog α → α → Prop
  | done (value : α) : Returns (.done value) value
  | now {next : Instant → Prog α} {value : α} (now : Instant) :
      Returns (next now) value → Returns (.now next) value
  | regionsWith {now : Instant} {pid : UInt32} {forceRefresh : Bool}
      {next : Except Str (List ParsedRegion) → Prog α} {value : α}
      (result : Except Str (List ParsedRegion)) :
      KnownRegions result → Returns (next result) value →
      Returns (.regionsWith now pid forceRefresh next) value

theorem Returns.of_bind {p : Prog α} {f : α → Prog β} {value : β} (h : (p.bind f).Returns value) :
    ∃ value', p.Returns value' ∧ (f value').Returns value := by
  induction p with
  | done value' => exact ⟨value', .done value', h⟩
  | now next ih =>
      cases h with
      | now now h =>
          obtain ⟨value', hp, hf⟩ := ih now h
          exact ⟨value', .now now hp, hf⟩
  | regionsWith now pid forceRefresh next ih =>
      cases h with
      | regionsWith result hknown h =>
          obtain ⟨value', hp, hf⟩ := ih result h
          exact ⟨value', .regionsWith result hknown hp, hf⟩

theorem exec_bind (reading : Except Str (List ParsedRegion)) (p : Prog α) (f : α → Prog β)
    (world : World) :
    (p.bind f).exec reading world =
      (f (p.exec reading world).1).exec reading (p.exec reading world).2 := by
  induction p generalizing world with
  | done value => rfl
  | now next ih => exact ih _ _
  | regionsWith now pid forceRefresh next ih => exact ih _ _

end Prog

/-! ## What was read stays so -/

section

variable {reading : Except Str (List ParsedRegion)} {cache : Cache} {now : Instant} {pid : UInt32}
  {forceRefresh : Bool}

theorem knownRegions_readMaps (file : Except Str Str) : KnownRegions (file.map readMaps) := by
  intro regions hregions region hmem
  cases file with
  | error message => cases hregions
  | ok content =>
      obtain rfl := Except.ok.inj hregions
      exact read_of_mem_readMaps hmem

/-- **Every region that `regions_with` returns or keeps** comes from the cache or from the
reading. -/
theorem forall_regionsWith {P : UInt32 → ParsedRegion → Prop}
    (hcache : ∀ pid cached, cache pid = some cached → ∀ region ∈ cached.regions, P pid region)
    (hreading : ∀ regions, reading = .ok regions → ∀ region ∈ regions, P pid region) :
    (∀ regions, (regionsWith reading cache now pid forceRefresh).1 = .ok regions →
      ∀ region ∈ regions, P pid region) ∧
    ∀ pid' cached, (regionsWith reading cache now pid forceRefresh).2 pid' = some cached →
      ∀ region ∈ cached.regions, P pid' region := by
  unfold regionsWith
  split
  · rename_i regions hlookup
    obtain ⟨-, cached, hcached, -, rfl⟩ := lookup_eq_some hlookup
    refine ⟨fun regions' h ↦ ?_, hcache⟩
    obtain rfl := Except.ok.inj h
    exact hcache pid cached hcached
  · split
    · exact ⟨nofun, hcache⟩
    · rename_i regions
      have hregions := hreading regions rfl
      rcases refresh_cases cache now pid forceRefresh regions with ⟨hkept, hr⟩ |
        ⟨-, hkept, cached, hcached, -, hr⟩
      · rw [hkept, hr]
        refine ⟨fun regions' h ↦ Except.ok.inj h ▸ hregions, fun pid' cached hcached ↦ ?_⟩
        change Function.update cache pid (some ⟨now, regions⟩) pid' = some cached at hcached
        by_cases hp : pid' = pid
        · subst hp
          rw [Function.update_self] at hcached
          obtain rfl := Option.some.inj hcached
          exact hregions
        · rw [Function.update_of_ne hp] at hcached
          exact hcache pid' cached hcached
      · rw [hkept, hr]
        exact ⟨fun regions' h ↦ Except.ok.inj h ▸ hcache pid cached hcached, hcache⟩

/-- `regions_with` returns and keeps what was read. -/
theorem known_regionsWith (hcache : cache.Known) (hreading : KnownRegions reading) :
    KnownRegions (regionsWith reading cache now pid forceRefresh).1 ∧
      (regionsWith reading cache now pid forceRefresh).2.Known :=
  forall_regionsWith (P := fun _ ↦ Read) hcache hreading

/-- What a program returns alone is something it may return. -/
theorem Prog.returns_exec {α : Type} (hreading : KnownRegions reading) (p : Prog α)
    (world : World) (hcache : world.cache.Known) :
    p.Returns (p.exec reading world).1 ∧ (p.exec reading world).2.cache.Known := by
  induction p generalizing world with
  | done value => exact ⟨.done value, hcache⟩
  | now next ih =>
      obtain ⟨hreturns, hknown⟩ := ih (world.clock 0) ⟨fun n ↦ world.clock (n + 1), _⟩ hcache
      exact ⟨.now _ hreturns, hknown⟩
  | regionsWith t pid forceRefresh next ih =>
      have hcall : KnownRegions (Maps.regionsWith reading world.cache t pid forceRefresh).1 ∧
          (Maps.regionsWith reading world.cache t pid forceRefresh).2.Known :=
        known_regionsWith hcache hreading
      obtain ⟨hreturns, hknown⟩ := ih _ ⟨world.clock, _⟩ hcall.2
      exact ⟨.regionsWith _ hcall.1 hreturns, hknown⟩

end

end Pwatch.Maps
