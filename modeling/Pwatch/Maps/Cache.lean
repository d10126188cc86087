import Mathlib.Logic.Function.Basic
import Pwatch.Maps.Program
import Pwatch.Runs.Basic

/-!
# The maps cache

`MapsCache` of `src/maps.rs` with any number of callers at once.  `regions_with` is three
atomic actions: the first section under the lock, which answers from the cache or lets
go of it, the read of the maps file, and the second section, which stores what was read
or drops it.  Other callers act in between.

What a maps file holds at each read is free, and so is how far the clock moves, but it
never goes back.  The lock is not poisoned.
-/

namespace Pwatch.Maps

/-! ## The two sections -/

/-- `CachedMaps`. -/
structure CachedMaps where
  loadedAt : Instant
  regions : List ParsedRegion
deriving DecidableEq, Repr

/-- The map behind the lock. -/
abbrev Cache := UInt32 → Option CachedMaps

/-- The test both sections make.  `duration_since` is 0 for an instant that is later. -/
def stale (now : Instant) (cached : Option CachedMaps) : Bool :=
  match cached with
  | some cached => second ≤ now - cached.loadedAt
  | none => true

/-- The first section: the regions it returns, if it does. -/
def lookup (cache : Cache) (now : Instant) (pid : UInt32) (forceRefresh : Bool) :
    Option (List ParsedRegion) :=
  if !forceRefresh && !stale now (cache pid) then
    some (((cache pid).map fun cached ↦ cached.regions).getD [])
  else none

/-- The cache after the second section. -/
def refresh (cache : Cache) (now : Instant) (pid : UInt32) (forceRefresh : Bool)
    (regions : List ParsedRegion) : Cache :=
  if forceRefresh || stale now (cache pid) then Function.update cache pid (some ⟨now, regions⟩)
  else cache

/-- What the second section returns. -/
def refreshed (cache : Cache) (now : Instant) (pid : UInt32) (forceRefresh : Bool)
    (regions : List ParsedRegion) : List ParsedRegion :=
  ((refresh cache now pid forceRefresh regions pid).map fun cached ↦ cached.regions).getD []

/-- The first section answers an unforced call with an entry that is not stale. -/
theorem lookup_eq_some {cache : Cache} {now : Instant} {pid : UInt32} {forceRefresh : Bool}
    {regions : List ParsedRegion} (h : lookup cache now pid forceRefresh = some regions) :
    forceRefresh = false ∧
      ∃ cached, cache pid = some cached ∧ now - cached.loadedAt < second ∧
        regions = cached.regions := by
  unfold lookup at h
  split at h <;> rename_i hc
  · rw [Bool.and_eq_true, Bool.not_eq_true', Bool.not_eq_true'] at hc
    refine ⟨hc.1, ?_⟩
    cases hp : cache pid with
    | none => simp [hp, stale] at hc
    | some cached =>
        rw [hp] at hc h
        exact ⟨cached, rfl, by simpa [stale] using hc.2, (Option.some.inj h).symm⟩
  · cases h

/-- The second section stores what was read, or finds an entry that is not stale. -/
theorem refresh_cases (cache : Cache) (now : Instant) (pid : UInt32) (forceRefresh : Bool)
    (regions : List ParsedRegion) :
    (refresh cache now pid forceRefresh regions =
        Function.update cache pid (some ⟨now, regions⟩) ∧
      refreshed cache now pid forceRefresh regions = regions) ∨
    (forceRefresh = false ∧ refresh cache now pid forceRefresh regions = cache ∧
      ∃ cached, cache pid = some cached ∧ now - cached.loadedAt < second ∧
        refreshed cache now pid forceRefresh regions = cached.regions) := by
  unfold refreshed refresh
  split <;> rename_i hc
  · exact .inl ⟨rfl, by rw [Function.update_self]; rfl⟩
  · rw [Bool.or_eq_true, not_or, Bool.not_eq_true, Bool.not_eq_true] at hc
    refine .inr ⟨hc.1, rfl, ?_⟩
    cases hp : cache pid with
    | none => simp [hp, stale] at hc
    | some cached =>
        rw [hp] at hc
        exact ⟨cached, rfl, by simpa [stale] using hc.2, rfl⟩

/-- The second section leaves the entries of other processes alone. -/
theorem refresh_of_ne {cache : Cache} {now : Instant} {pid pid' : UInt32} {forceRefresh : Bool}
    {regions : List ParsedRegion} (h : pid' ≠ pid) :
    refresh cache now pid forceRefresh regions pid' = cache pid' := by
  rcases refresh_cases cache now pid forceRefresh regions with ⟨hr, -⟩ | ⟨-, hr, -⟩
  · rw [hr, Function.update_of_ne h]
  · rw [hr]

/-! ## Callers -/

/-- A call of one of the methods. -/
inductive Call
  | list (pid : UInt32)
  | resolve (pid : UInt32) (addr : UInt64)
  | resolveManyAddresses (pid : UInt32) (addrs : List UInt64)
  | resolveExpression (pid : UInt32) (expression : Str)
deriving DecidableEq, Repr

/-- What the methods return. -/
inductive Result
  | list (result : Except Str (List MapRegion))
  | resolve (result : Option MapRegion)
  | resolveManyAddresses (result : List (Option AddressResolution))
  | resolveExpression (result : Except Str ResolvedAddress)
deriving DecidableEq

namespace Call

/-- The process a call is about. -/
def pid : Call → UInt32
  | .list pid | .resolve pid _ | .resolveManyAddresses pid _ | .resolveExpression pid _ => pid

/-- The method that is called. -/
def program : Call → Prog Result
  | .list pid => .list <$> Maps.list pid
  | .resolve pid addr => .resolve <$> Maps.resolve pid addr
  | .resolveManyAddresses pid addrs =>
      .resolveManyAddresses <$> Maps.resolveManyAddresses pid addrs
  | .resolveExpression pid expression =>
      .resolveExpression <$> Maps.resolveExpression pid expression

/-- A call is about one process, and reads the clock before it uses it. -/
theorem timed_program (call : Call) (time : Instant) : call.program.Timed call.pid time := by
  have hmap : ∀ {α : Type} {p : Prog α} (f : α → Result), p.Timed call.pid time →
      (f <$> p).Timed call.pid time := fun f hp ↦ hp.bind fun _ _ _ ↦ trivial
  cases call with
  | list pid => exact hmap _ (timed_list pid time)
  | resolve pid addr => exact hmap _ (timed_resolve pid time addr)
  | resolveManyAddresses pid addrs => exact hmap _ (timed_resolveManyAddresses pid time addrs)
  | resolveExpression pid expression => exact hmap _ (timed_resolveExpression pid time expression)

end Call

/-! ## The system -/

/-- Where a call stands. -/
inductive Position
  | running (program : Prog Result)
  | /-- In `regions_with`, before the read. -/
    reading (now : Instant) (pid : UInt32) (forceRefresh : Bool)
      (next : Except Str (List ParsedRegion) → Prog Result)
  | /-- In `regions_with`, with the regions that were read. -/
    storing (now : Instant) (pid : UInt32) (forceRefresh : Bool) (regions : List ParsedRegion)
      (next : Except Str (List ParsedRegion) → Prog Result)
  | returned

/-- A caller. -/
structure Caller where
  call : Call
  position : Position

/-- The cache, the clock and the callers. -/
structure State where
  cache : Cache
  time : Instant
  callers : Nat → Option Caller

/-- The state of a new cache. -/
def State.initial (time : Instant) : State where
  cache := fun _ ↦ none
  time
  callers := fun _ ↦ none

/-- The state in which a caller has gone on. -/
def State.setCaller (s : State) (c : Nat) (call : Call) (position : Position) : State :=
  { s with callers := Function.update s.callers c (some ⟨call, position⟩) }

theorem State.setCaller_self (s : State) (c : Nat) (call : Call) (position : Position) :
    (s.setCaller c call position).callers c = some ⟨call, position⟩ :=
  Function.update_self ..

theorem State.setCaller_of_ne (s : State) {c c' : Nat} (h : c' ≠ c) (call : Call)
    (position : Position) : (s.setCaller c call position).callers c' = s.callers c' :=
  Function.update_of_ne h ..

/-- A call of `regions_with` that returns. -/
structure Return where
  caller : Nat
  now : Instant
  pid : UInt32
  forceRefresh : Bool
  result : Except Str (List ParsedRegion)

inductive Event
  | called (c : Nat) (call : Call)
  | ticked (nanos : Nat)
  | clock (c : Nat) (now : Instant)
  | /-- `regions_with` returns from its first section. -/
    hit (c : Nat) (now : Instant) (pid : UInt32) (forceRefresh : Bool)
      (regions : List ParsedRegion)
  | /-- `regions_with` goes on to read. -/
    missed (c : Nat) (now : Instant) (pid : UInt32) (forceRefresh : Bool)
  | /-- `read_maps` has returned what the file held at the time. -/
    read (c : Nat) (pid : UInt32) (time : Instant) (regions : List ParsedRegion)
  | /-- `read_maps` has failed, and `regions_with` returns its error. -/
    readFailed (c : Nat) (now : Instant) (pid : UInt32) (forceRefresh : Bool) (message : Str)
  | /-- `regions_with` returns from its second section. -/
    stored (c : Nat) (now : Instant) (pid : UInt32) (forceRefresh : Bool)
      (regions : List ParsedRegion)
  | returned (c : Nat) (result : Result)

namespace Event

/-- Who acts. -/
def caller : Event → Option Nat
  | .called c _ | .clock c _ | .hit c _ _ _ _ | .missed c _ _ _ | .read c _ _ _
  | .readFailed c _ _ _ _ | .stored c _ _ _ _ | .returned c _ => some c
  | .ticked _ => none

/-- What `regions_with` returns at an event. -/
def return? : Event → Option Return
  | .hit c now pid forceRefresh regions | .stored c now pid forceRefresh regions =>
      some ⟨c, now, pid, forceRefresh, .ok regions⟩
  | .readFailed c now pid forceRefresh message => some ⟨c, now, pid, forceRefresh, .error message⟩
  | _ => none

end Event

/-- One action of one caller, or the clock. -/
inductive Step : State → Event → State → Prop
  | call {s : State} {c : Nat} (call : Call) :
      s.callers c = none → Step s (.called c call) (s.setCaller c call (.running call.program))
  | tick {s : State} (nanos : Nat) : Step s (.ticked nanos) { s with time := s.time + nanos }
  | clock {s : State} {c : Nat} {call : Call} {next : Instant → Prog Result} :
      s.callers c = some ⟨call, .running (.now next)⟩ →
      Step s (.clock c s.time) (s.setCaller c call (.running (next s.time)))
  | hit {s : State} {c : Nat} {call : Call} {now : Instant} {pid : UInt32} {forceRefresh : Bool}
      {next : Except Str (List ParsedRegion) → Prog Result} {regions : List ParsedRegion} :
      s.callers c = some ⟨call, .running (.regionsWith now pid forceRefresh next)⟩ →
      lookup s.cache now pid forceRefresh = some regions →
      Step s (.hit c now pid forceRefresh regions)
        (s.setCaller c call (.running (next (.ok regions))))
  | miss {s : State} {c : Nat} {call : Call} {now : Instant} {pid : UInt32} {forceRefresh : Bool}
      {next : Except Str (List ParsedRegion) → Prog Result} :
      s.callers c = some ⟨call, .running (.regionsWith now pid forceRefresh next)⟩ →
      lookup s.cache now pid forceRefresh = none →
      Step s (.missed c now pid forceRefresh)
        (s.setCaller c call (.reading now pid forceRefresh next))
  | read {s : State} {c : Nat} {call : Call} {now : Instant} {pid : UInt32} {forceRefresh : Bool}
      {next : Except Str (List ParsedRegion) → Prog Result} (regions : List ParsedRegion) :
      s.callers c = some ⟨call, .reading now pid forceRefresh next⟩ →
      Step s (.read c pid s.time regions)
        (s.setCaller c call (.storing now pid forceRefresh regions next))
  | readFailed {s : State} {c : Nat} {call : Call} {now : Instant} {pid : UInt32}
      {forceRefresh : Bool} {next : Except Str (List ParsedRegion) → Prog Result} (message : Str) :
      s.callers c = some ⟨call, .reading now pid forceRefresh next⟩ →
      Step s (.readFailed c now pid forceRefresh message)
        (s.setCaller c call (.running (next (.error message))))
  | store {s : State} {c : Nat} {call : Call} {now : Instant} {pid : UInt32} {forceRefresh : Bool}
      {next : Except Str (List ParsedRegion) → Prog Result} {regions : List ParsedRegion} :
      s.callers c = some ⟨call, .storing now pid forceRefresh regions next⟩ →
      Step s (.stored c now pid forceRefresh (refreshed s.cache now pid forceRefresh regions))
        ({ s with cache := refresh s.cache now pid forceRefresh regions }.setCaller c call
          (.running (next (.ok (refreshed s.cache now pid forceRefresh regions)))))
  | finish {s : State} {c : Nat} {call : Call} {result : Result} :
      s.callers c = some ⟨call, .running (.done result)⟩ →
      Step s (.returned c result) (s.setCaller c call .returned)

end Pwatch.Maps
