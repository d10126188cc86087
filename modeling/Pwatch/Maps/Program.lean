import Pwatch.Maps.Lookup

/-!
# The methods of the maps cache

`list`, `resolve`, `resolve_many_addresses` and `resolve_expression` as programs over
the two calls by which they touch the world: `Instant::now` and `regions_with`.  What
`regions_with` does, in which steps, is left to `Pwatch.Maps.Cache`.
-/

namespace Pwatch.Maps

open Text

/-- An `Instant`, in nanoseconds. -/
abbrev Instant := Nat

/-- `Duration::from_secs(1)`. -/
def second : Nat := 1000000000

/-- A method of `MapsCache`, up to its next call. -/
inductive Prog (α : Type)
  | done (value : α)
  | /-- `Instant::now()`. -/
    now (next : Instant → Prog α)
  | /-- `self.regions_with(now, pid, force_refresh)`. -/
    regionsWith (now : Instant) (pid : UInt32) (forceRefresh : Bool)
      (next : Except Str (List ParsedRegion) → Prog α)

namespace Prog

variable {α β : Type}

/-- One program after another. -/
def bind : Prog α → (α → Prog β) → Prog β
  | .done value, f => f value
  | .now next, f => .now fun t ↦ (next t).bind f
  | .regionsWith t pid forceRefresh next, f =>
      .regionsWith t pid forceRefresh fun regions ↦ (next regions).bind f

instance : Monad Prog where
  pure := .done
  bind := bind

end Prog

/-! ## The methods -/

/-- `MapsCache::regions`. -/
def regions (pid : UInt32) (forceRefresh : Bool) : Prog (Except Str (List ParsedRegion)) :=
  .now fun now ↦ .regionsWith now pid forceRefresh .done

/-- `MapsCache::list`. -/
def list (pid : UInt32) : Prog (Except Str (List MapRegion)) := do
  let regions ← regions pid true
  return regions.map fun regions ↦ regions.map fun region ↦ region.region

/-- `MapsCache::resolve_cached`. -/
def resolveCached (pid : UInt32) (addr : UInt64) (now : Instant) (forceRefresh : Bool) :
    Prog (Option MapRegion) :=
  .regionsWith now pid forceRefresh fun regions ↦
    .done (regions.toOption.bind fun regions ↦
      (regions.find? fun region ↦ region.contains addr).map fun region ↦ region.region)

/-- `MapsCache::resolve`. -/
def resolve (pid : UInt32) (addr : UInt64) : Prog (Option MapRegion) :=
  .now fun now ↦ do
    match ← resolveCached pid addr now false with
    | some region => return some region
    | none => resolveCached pid addr now true

/-- The second half of `MapsCache::resolve_many_addresses`: what the first lookup has
missed is looked up again. -/
def fillMissing (refreshed : List ParsedRegion) (addrs : List UInt64)
    (resolved : List (Option AddressResolution)) : List (Option AddressResolution) :=
  resolved.mapIdx fun idx value ↦
    if value.isNone then addrs[idx]?.bind (resolveOne refreshed) else value

/-- `MapsCache::resolve_many_addresses`. -/
def resolveManyAddresses (pid : UInt32) (addrs : List UInt64) :
    Prog (List (Option AddressResolution)) :=
  if addrs.isEmpty then .done []
  else .now fun now ↦ .regionsWith now pid false fun regions ↦
    let resolved := resolveAgainstRegions (regions.toOption.getD []) addrs
    if resolved.any Option.isNone then
      .regionsWith now pid true fun refreshed ↦
        match refreshed with
        | .ok refreshed => .done (fillMissing refreshed addrs resolved)
        | .error _ => .done resolved
    else .done resolved

/-- The address `MapsCache::resolve_expression` begins with. -/
def expressionAddr (pid : UInt32) (expression : Str) : Prog (Except Str UInt64) :=
  match parseNumericAddr (trim expression) with
  | some addr => .done (.ok addr)
  | none => resolveModuleOffset (regions pid true) pid expression

/-- `MapsCache::resolve_expression`. -/
def resolveExpression (pid : UInt32) (expression : Str) : Prog (Except Str ResolvedAddress) := do
  match ← expressionAddr pid expression with
  | .error message => return .error message
  | .ok addr =>
      let map ← resolve pid addr
      return .ok {
        expression
        address := "0x".toList ++ lowerHex16 addr.toNat
        value := addr
        map }

/-! ## What the methods ask for -/

namespace Prog

variable {α β : Type}

/-- Every call of the program is for this pid, with an instant that was read before it. -/
def Timed (pid : UInt32) : Instant → Prog α → Prop
  | _, .done _ => True
  | time, .now next => ∀ t, time ≤ t → (next t).Timed pid t
  | time, .regionsWith t pid' _ next =>
      pid' = pid ∧ t ≤ time ∧ ∀ regions, (next regions).Timed pid time

theorem Timed.mono {pid : UInt32} {time time' : Instant} {p : Prog α} (h : p.Timed pid time)
    (hle : time ≤ time') : p.Timed pid time' := by
  induction p generalizing time time' with
  | done value => trivial
  | now next ih => exact fun t ht ↦ h t (hle.trans ht)
  | regionsWith t pid' forceRefresh next ih =>
      exact ⟨h.1, h.2.1.trans hle, fun regions ↦ ih regions (h.2.2 regions) hle⟩

theorem Timed.bind {pid : UInt32} {time : Instant} {p : Prog α} {f : α → Prog β}
    (h : p.Timed pid time) (hf : ∀ value time', time ≤ time' → (f value).Timed pid time') :
    (p.bind f).Timed pid time := by
  induction p generalizing time with
  | done value => exact hf value time (Nat.le_refl _)
  | now next ih =>
      exact fun t ht ↦ ih t (h t ht) fun value time' hle ↦ hf value time' (ht.trans hle)
  | regionsWith t pid' forceRefresh next ih =>
      exact ⟨h.1, h.2.1, fun regions ↦ ih regions (h.2.2 regions) hf⟩

end Prog

section

variable (pid : UInt32) (time : Instant)

theorem timed_regions (forceRefresh : Bool) : (regions pid forceRefresh).Timed pid time :=
  fun _ _ ↦ ⟨rfl, Nat.le_refl _, fun _ ↦ trivial⟩

theorem timed_list : (list pid).Timed pid time :=
  (timed_regions pid time true).bind fun _ _ _ ↦ trivial

theorem timed_resolveCached {now : Instant} (hnow : now ≤ time) (addr : UInt64)
    (forceRefresh : Bool) : (resolveCached pid addr now forceRefresh).Timed pid time :=
  ⟨rfl, hnow, fun _ ↦ trivial⟩

theorem timed_resolve (addr : UInt64) : (resolve pid addr).Timed pid time := by
  intro now _
  refine (timed_resolveCached pid now (Nat.le_refl _) addr false).bind fun region time' hle ↦ ?_
  cases region with
  | none => exact timed_resolveCached pid time' hle addr true
  | some region => trivial

theorem timed_resolveManyAddresses (addrs : List UInt64) :
    (resolveManyAddresses pid addrs).Timed pid time := by
  unfold resolveManyAddresses
  split
  · trivial
  · refine fun now _ ↦ ⟨rfl, Nat.le_refl _, fun regions ↦ ?_⟩
    dsimp only
    split
    · refine ⟨rfl, Nat.le_refl _, fun refreshed ↦ ?_⟩
      cases refreshed <;> trivial
    · trivial

theorem timed_resolveModuleOffset (expression : Str) :
    (resolveModuleOffset (regions pid true) pid expression).Timed pid time := by
  unfold resolveModuleOffset
  split
  · trivial
  · exact (timed_regions pid time true).bind fun _ _ _ ↦ trivial

theorem timed_resolveExpression (expression : Str) :
    (resolveExpression pid expression).Timed pid time := by
  have haddr : (expressionAddr pid expression).Timed pid time := by
    unfold expressionAddr
    split
    · trivial
    · exact timed_resolveModuleOffset pid time expression
  refine haddr.bind fun addr time' _ ↦ ?_
  cases addr with
  | error message => trivial
  | ok addr => exact (timed_resolve pid time' addr).bind fun _ _ _ ↦ trivial

end

end Pwatch.Maps
