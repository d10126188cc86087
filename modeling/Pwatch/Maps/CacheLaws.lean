import Pwatch.Maps.Cache

/-!
# The laws of the maps cache

What `regions_with` returns was read for the same process less than a second before the
instant it was called with, by the call itself if that was forced.  The invariant is
that an entry is never younger than the read it holds (`Loaded.entry`), because every
call reads the clock before it reads the file (`CallerOk`).
-/

namespace Pwatch.Maps

variable {time : Instant} {es : List Event} {e : Event} {s t : State} {c : Nat}

/-- An action of this caller. -/
def Event.By (c : Nat) (e : Event) : Prop := e.caller = some c

/-! ## The invariant -/

/-- What is known of a caller where it stands. -/
def CallerOk (es : List Event) (time : Instant) (c : Nat) (caller : Caller) : Prop :=
  match caller.position with
  | .running program => program.Timed caller.call.pid time
  | .reading now pid forceRefresh next =>
      pid = caller.call.pid ∧ now ≤ time ∧ (∀ result, (next result).Timed caller.call.pid time) ∧
        LastOf (Event.By c) es (.missed c now pid forceRefresh)
  | .storing now pid _ regions next =>
      pid = caller.call.pid ∧ (∀ result, (next result).Timed caller.call.pid time) ∧
        ∃ t, now ≤ t ∧ LastOf (Event.By c) es (.read c pid t regions)
  | .returned => True

/-- **The invariant of the cache.** -/
structure Loaded (es : List Event) (s : State) : Prop where
  entry : ∀ pid cached, s.cache pid = some cached →
    ∃ c t, .read c pid t cached.regions ∈ es ∧ cached.loadedAt ≤ t
  caller : ∀ c caller, s.callers c = some caller → CallerOk es s.time c caller

theorem loaded_initial : Loaded [] (.initial time) where
  entry := by simp [State.initial]
  caller := by simp [State.initial]

theorem CallerOk.snoc {caller : Caller} (h : CallerOk es time c caller) (he : ¬ e.By c) :
    CallerOk (es ++ [e]) time c caller := by
  unfold CallerOk at h ⊢
  split at h
  · exact h
  · exact ⟨h.1, h.2.1, h.2.2.1, h.2.2.2.snoc he⟩
  · obtain ⟨hpid, hnext, t, ht, hlast⟩ := h
    exact ⟨hpid, hnext, t, ht, hlast.snoc he⟩
  · exact h

theorem CallerOk.later {caller : Caller} (h : CallerOk es time c caller) {time' : Instant}
    (hle : time ≤ time') : CallerOk es time' c caller := by
  unfold CallerOk at h ⊢
  split at h
  · exact h.mono hle
  · exact ⟨h.1, h.2.1.trans hle, fun result ↦ (h.2.2.1 result).mono hle, h.2.2.2⟩
  · exact ⟨h.1, fun result ↦ (h.2.1 result).mono hle, h.2.2⟩
  · exact h

/-- An entry that is not stale was read less than a second before. -/
theorem Loaded.fresh (h : Loaded es s) {pid : UInt32} {cached : CachedMaps} {now : Instant}
    (hcached : s.cache pid = some cached) (hfresh : now - cached.loadedAt < second) :
    ∃ c t, .read c pid t cached.regions ∈ es ∧ now < t + second := by
  obtain ⟨c, t, hread, hle⟩ := h.entry pid cached hcached
  refine ⟨c, t, hread, ?_⟩
  calc now ≤ now - cached.loadedAt + cached.loadedAt := le_tsub_add
    _ < second + t := Nat.add_lt_add_of_lt_of_le hfresh hle
    _ = t + second := Nat.add_comm _ _

theorem Loaded.entry_snoc (h : Loaded es s) (e : Event) {pid : UInt32} {cached : CachedMaps}
    (hcached : s.cache pid = some cached) :
    ∃ c t, .read c pid t cached.regions ∈ es ++ [e] ∧ cached.loadedAt ≤ t := by
  obtain ⟨c, t, hread, hle⟩ := h.entry pid cached hcached
  exact ⟨c, t, List.mem_append_left _ hread, hle⟩

/-- An action of a caller. -/
theorem Loaded.act (h : Loaded es s) {cache : Cache} {call : Call} {position : Position}
    (he : e.By c) (hcache : ∀ pid cached, cache pid = some cached →
      ∃ c t, .read c pid t cached.regions ∈ es ++ [e] ∧ cached.loadedAt ≤ t)
    (hc : CallerOk (es ++ [e]) s.time c ⟨call, position⟩) :
    Loaded (es ++ [e]) ({ s with cache }.setCaller c call position) where
  entry := hcache
  caller c' caller hcaller := by
    by_cases hcc : c' = c
    · subst hcc
      obtain rfl : ⟨call, position⟩ = caller := by
        simpa [State.setCaller] using hcaller
      exact hc
    · have hold : s.callers c' = some caller := by
        simpa [State.setCaller, hcc] using hcaller
      have hne : ¬ e.By c' := fun he' ↦ hcc (Option.some.inj (he'.symm.trans he))
      exact (h.caller c' caller hold).snoc hne

/-- Most actions of a caller leave the cache as it is. -/
theorem Loaded.goOn (h : Loaded es s) {call : Call} {position : Position} (he : e.By c)
    (hc : CallerOk (es ++ [e]) s.time c ⟨call, position⟩) :
    Loaded (es ++ [e]) (s.setCaller c call position) :=
  h.act he (fun _ _ hcached ↦ h.entry_snoc e hcached) hc

/-- **The step lemma.** -/
theorem Loaded.step (h : Loaded es s) (hstep : Step s e t) : Loaded (es ++ [e]) t := by
  cases hstep with
  | call call hnone => exact h.goOn rfl (call.timed_program s.time)
  | tick nanos =>
      refine ⟨fun pid cached hcached ↦ h.entry_snoc _ hcached, fun c caller hcaller ↦ ?_⟩
      exact ((h.caller c caller hcaller).snoc (by simp [Event.By, Event.caller])).later
        (Nat.le_add_right _ _)
  | clock hc =>
      have htimed : Prog.Timed _ _ _ := h.caller _ _ hc
      exact h.goOn rfl (htimed s.time (Nat.le_refl _))
  | hit hc hlookup =>
      have htimed : Prog.Timed _ _ _ := h.caller _ _ hc
      exact h.goOn rfl (htimed.2.2 _)
  | miss hc hlookup =>
      have htimed : Prog.Timed _ _ _ := h.caller _ _ hc
      exact h.goOn rfl ⟨htimed.1, htimed.2.1, htimed.2.2, .self _ _ _⟩
  | read regions hc =>
      obtain ⟨hpid, hnow, hnext, -⟩ := h.caller _ _ hc
      exact h.goOn rfl ⟨hpid, hnext, s.time, hnow, .self _ _ _⟩
  | readFailed message hc =>
      obtain ⟨hpid, hnow, hnext, -⟩ := h.caller _ _ hc
      exact h.goOn rfl (hnext _)
  | @store c call now pid forceRefresh next regions hc =>
      obtain ⟨hpid, hnext, t, hnow, before, after, rfl, -⟩ := h.caller _ _ hc
      refine h.act rfl (fun pid' cached hcached ↦ ?_) (hnext _)
      rcases refresh_cases s.cache now pid forceRefresh regions with ⟨hr, -⟩ | ⟨-, hr, -⟩
      · by_cases hp : pid' = pid
        · rw [hr, hp, Function.update_self] at hcached
          obtain rfl := Option.some.inj hcached
          exact ⟨c, t, by simp [hp], hnow⟩
        · rw [refresh_of_ne hp] at hcached
          exact h.entry_snoc _ hcached
      · rw [hr] at hcached
        exact h.entry_snoc _ hcached
  | finish hc => exact h.goOn rfl trivial

/-- **The run lemma.** -/
theorem loaded (hrun : Run Step (.initial time) es s) : Loaded es s :=
  hrun.invariant loaded_initial fun _ _ _ _ _ h hstep ↦ h.step hstep

/-! ## The laws -/

/-- What every action keeps to. -/
structure CacheLaws (time : Instant) (es : List Event) (s : State) (e : Event) (t : State) :
    Prop where
  /-- Regions that `regions_with` returns were read for the same process less than a
  second before. -/
  fresh : ∀ ret regions, e.return? = some ret → ret.result = .ok regions →
    ∃ c readAt, .read c ret.pid readAt regions ∈ es ∧ ret.now < readAt + second
  /-- A forced call returns what it has just read. -/
  own : ∀ ret regions, e.return? = some ret → ret.result = .ok regions →
    ret.forceRefresh = true →
      ∃ readAt, LastOf (Event.By ret.caller) es (.read ret.caller ret.pid readAt regions)
  /-- Only a call about a process changes the entry of that process. -/
  isolated : ∀ pid, t.cache pid ≠ s.cache pid →
    ∃ c caller, e.By c ∧ s.callers c = some caller ∧ caller.call.pid = pid
  /-- A call whose read fails changes nothing, from its first section to its return. -/
  failed : ∀ ret message, e.return? = some ret → ret.result = .error message →
    t.cache = s.cache ∧ ∃ before after s₁ s₂,
      es = before ++ .missed ret.caller ret.now ret.pid ret.forceRefresh :: after ∧
        (∀ e' ∈ after, ¬ e'.By ret.caller) ∧ Run Step (.initial time) before s₁ ∧
          Step s₁ (.missed ret.caller ret.now ret.pid ret.forceRefresh) s₂ ∧ s₂.cache = s₁.cache ∧
            Run Step s₂ after s

/-- Only the second section changes the cache. -/
theorem cache_eq_of_step (hstep : Step s e t)
    (he : ∀ c now pid forceRefresh regions, e ≠ .stored c now pid forceRefresh regions) :
    t.cache = s.cache := by
  cases hstep with
  | store hc => exact absurd rfl (he _ _ _ _ _)
  | _ => rfl

theorem Loaded.return_fresh (h : Loaded es s) (hstep : Step s e t) {ret : Return}
    {regions : List ParsedRegion} (he : e.return? = some ret) (hok : ret.result = .ok regions) :
    ∃ c readAt, .read c ret.pid readAt regions ∈ es ∧ ret.now < readAt + second := by
  cases hstep with
  | hit hc hlookup =>
      cases he
      cases hok
      obtain ⟨-, cached, hcached, hfresh, rfl⟩ := lookup_eq_some hlookup
      exact h.fresh hcached hfresh
  | @store c call now pid forceRefresh next read hc =>
      cases he
      cases hok
      obtain ⟨-, -, readAt, hnow, before, after, rfl, -⟩ := h.caller _ _ hc
      rcases refresh_cases s.cache now pid forceRefresh read with
        ⟨-, hr⟩ | ⟨-, -, cached, hcached, hfresh, hr⟩
      · rw [hr]
        exact ⟨c, readAt, by simp, Nat.lt_of_le_of_lt hnow (Nat.lt_add_of_pos_right (by decide))⟩
      · rw [hr]
        exact h.fresh hcached hfresh
  | readFailed message hc =>
      cases he
      cases hok
  | _ => cases he

theorem Loaded.return_own (h : Loaded es s) (hstep : Step s e t) {ret : Return}
    {regions : List ParsedRegion} (he : e.return? = some ret) (hok : ret.result = .ok regions)
    (hforce : ret.forceRefresh = true) :
    ∃ readAt, LastOf (Event.By ret.caller) es (.read ret.caller ret.pid readAt regions) := by
  cases hstep with
  | hit hc hlookup =>
      cases he
      rw [(lookup_eq_some hlookup).1] at hforce
      cases hforce
  | @store c call now pid forceRefresh next read hc =>
      cases he
      cases hok
      obtain ⟨-, -, readAt, -, hlast⟩ := h.caller _ _ hc
      rcases refresh_cases s.cache now pid forceRefresh read with ⟨-, hr⟩ | ⟨hunforced, -⟩
      · rw [hr]
        exact ⟨readAt, hlast⟩
      · exact absurd hforce (by simp [hunforced])
  | readFailed message hc =>
      cases he
      cases hok
  | _ => cases he

theorem Loaded.isolated (h : Loaded es s) (hstep : Step s e t) {pid : UInt32}
    (hne : t.cache pid ≠ s.cache pid) :
    ∃ c caller, e.By c ∧ s.callers c = some caller ∧ caller.call.pid = pid := by
  cases hstep with
  | @store c call now pid' forceRefresh next read hc =>
      obtain ⟨hpid, -⟩ := h.caller _ _ hc
      refine ⟨c, _, rfl, hc, ?_⟩
      by_contra hother
      exact hne (refresh_of_ne fun heq ↦ hother (hpid.symm.trans heq.symm))
  | _ => exact absurd rfl hne

/-- **The maps cache.**  The laws hold at every action of every run, with any callers in
any order. -/
theorem cacheLaws (hrun : Run Step (.initial time) es s) (hstep : Step s e t) :
    CacheLaws time es s e t := by
  have h := loaded hrun
  refine ⟨fun ret regions ↦ h.return_fresh hstep, fun ret regions ↦ h.return_own hstep,
    fun pid ↦ h.isolated hstep, fun ret message he herror ↦ ?_⟩
  cases hstep with
  | @readFailed c call now pid forceRefresh next message hc =>
      cases he
      obtain ⟨-, -, -, before, after, rfl, hafter⟩ := h.caller _ _ hc
      obtain ⟨s₁, s₂, hbefore, hmissed, hrest⟩ := hrun.split_event
      exact ⟨rfl, before, after, s₁, s₂, rfl, hafter, hbefore, hmissed,
        cache_eq_of_step hmissed (by simp), hrest⟩
  | hit hc hlookup | store hc =>
      cases he
      cases herror
  | _ => cases he

/-- A caller that lists the regions of a process alone. -/
theorem exists_run_listed (regions : List ParsedRegion) : ∃ es callers, callers 1 = none ∧
    Run Step (.initial 5) es
      ⟨Function.update (fun _ ↦ none) 7 (some ⟨5, regions⟩), 5, callers⟩ := by
  let call : Call := .list 7
  let next : Except Str (List ParsedRegion) → Prog Result := fun regions ↦
    .done (.list (regions.map fun regions ↦ regions.map fun region ↦ region.region))
  let s₀ : State := .initial 5
  let s₁ := s₀.setCaller 0 call (.running call.program)
  let s₂ := s₁.setCaller 0 call (.running (.regionsWith 5 7 true next))
  let s₃ := s₂.setCaller 0 call (.reading 5 7 true next)
  let s₄ := s₃.setCaller 0 call (.storing 5 7 true regions next)
  have hcall : Step s₀ (.called 0 call) s₁ := .call call rfl
  have hstart : s₁.callers 0 =
      some ⟨call, .running (.now fun t ↦ .regionsWith t 7 true next)⟩ := rfl
  have hclock : Step s₁ (.clock 0 s₁.time) s₂ := .clock hstart
  have hmissed : Step s₂ (.missed 0 5 7 true) s₃ := .miss rfl rfl
  have hread : Step s₃ (.read 0 7 5 regions) s₄ := .read regions rfl
  have hstored : Step s₄ (.stored 0 5 7 true regions) _ := .store rfl
  exact ⟨_, _, rfl, .cons hcall (.cons hclock (.cons hmissed (.cons hread
    (.single hstored))))⟩

/-- A mapping that is found in the entry another caller has stored. -/
theorem cacheLaws_hit : ∃ regions es s e t, Run Step (.initial 5) es s ∧ Step s e t ∧
    e.return? = some ⟨1, 14, 7, false, .ok regions⟩ ∧ regions.length = 1 ∧
      CacheLaws 5 es s e t := by
  let region : ParsedRegion :=
    ⟨0x1000, 0x2000, ⟨[], [], "r-xp".toList, [], [], 0, some "/lib/a.so".toList⟩⟩
  obtain ⟨es, callers, hfree, hlisted⟩ := exists_run_listed [region]
  let call : Call := .resolve 7 0x1234
  let cache : Cache := Function.update (fun _ ↦ none) 7 (some ⟨5, [region]⟩)
  let s₀ : State := ⟨cache, 14, callers⟩
  let s₁ := s₀.setCaller 1 call (.running call.program)
  have htick : Step ⟨cache, 5, callers⟩ (.ticked 9) s₀ := .tick 9
  have hcall : Step s₀ (.called 1 call) s₁ := .call call hfree
  obtain ⟨u, v, hclock, hhit⟩ : ∃ u v, Step s₁ (.clock 1 14) u ∧
      Step u (.hit 1 14 7 false [region]) v :=
    ⟨_, _, .clock (State.setCaller_self ..), .hit (State.setCaller_self ..) rfl⟩
  have hrun := ((hlisted.snoc htick).snoc hcall).snoc hclock
  exact ⟨_, _, _, _, _, hrun, hhit, rfl, rfl, cacheLaws hrun hhit⟩

end Pwatch.Maps
