import Pwatch.Maps.Cache

/-!
# Rollbacks of the maps cache

Whether an entry is replaced by regions that were read before the ones it holds.  The reads of
maps files are numbered in the order in which they happen, and `Tracked` carries the numbers of
the reads that the callers and the entries hold.

The second section of `regions_with` looks at the instants at which the calls began, not at the
reads, and an entry is replaced by an older read when the caller of that is forced, or when it was
called a second or more after the caller the entry is from.  `InOrder` keeps such a caller from
being left behind.
-/

namespace Pwatch.Maps

/-! ## Numbered reads -/

/-- The test of the second section. -/
def shouldUpdate (cache : Cache) (now : Instant) (pid : UInt32) (forceRefresh : Bool) : Bool :=
  forceRefresh || stale now (cache pid)

theorem refresh_of_shouldUpdate {cache : Cache} {now : Instant} {pid : UInt32}
    {forceRefresh : Bool} (h : shouldUpdate cache now pid forceRefresh = true)
    (regions : List ParsedRegion) :
    refresh cache now pid forceRefresh regions =
      Function.update cache pid (some ⟨now, regions⟩) :=
  if_pos h

theorem refresh_of_not_shouldUpdate {cache : Cache} {now : Instant} {pid : UInt32}
    {forceRefresh : Bool} (h : ¬ shouldUpdate cache now pid forceRefresh = true)
    (regions : List ParsedRegion) : refresh cache now pid forceRefresh regions = cache :=
  if_neg h

/-- Who was called a second or more after an entry stores what it has read. -/
theorem shouldUpdate_of_le {cache : Cache} {now : Instant} {pid : UInt32} {cached : CachedMaps}
    (hcached : cache pid = some cached) (hle : second ≤ now - cached.loadedAt)
    (forceRefresh : Bool) : shouldUpdate cache now pid forceRefresh = true := by
  rw [shouldUpdate, hcached, stale, decide_eq_true hle, Bool.or_true]

/-- What a read has found. -/
def Event.read? : Event → Option (UInt32 × List ParsedRegion)
  | .read _ pid _ regions => some (pid, regions)
  | _ => none

/-- The state, and which reads the callers and the entries are from. -/
structure Tracked where
  state : State
  /-- The number of reads so far. -/
  reads : Nat
  ofCaller : Nat → Nat
  ofEntry : UInt32 → Option Nat

namespace Tracked

def initial (time : Instant) : Tracked where
  state := .initial time
  reads := 0
  ofCaller := fun _ ↦ 0
  ofEntry := fun _ ↦ none

/-- The numbers after an action. -/
def next (s : Tracked) (e : Event) (state : State) : Tracked :=
  match e with
  | .read c _ _ _ =>
      { s with state, reads := s.reads + 1, ofCaller := Function.update s.ofCaller c s.reads }
  | .stored c now pid forceRefresh _ =>
      if shouldUpdate s.state.cache now pid forceRefresh then
        { s with state, ofEntry := Function.update s.ofEntry pid (some (s.ofCaller c)) }
      else { s with state }
  | _ => { s with state }

def Step (s : Tracked) (e : Event) (t : Tracked) : Prop :=
  ∃ state, Maps.Step s.state e state ∧ t = s.next e state

variable (s : Tracked) (e : Event) (state : State)

@[simp] theorem next_state : (s.next e state).state = state := by
  unfold next
  split
  · rfl
  · split <;> rfl
  · rfl

theorem next_reads : (s.next e state).reads = s.reads + e.read?.toList.length := by
  unfold next
  split
  · rfl
  · split <;> rfl
  · rename_i hread _
    cases e with
    | read c pid time regions => exact absurd rfl (hread c pid time regions)
    | _ => rfl

variable {e} in
theorem next_ofCaller_of_ne {c : Nat} (he : e.caller ≠ some c) :
    (s.next e state).ofCaller c = s.ofCaller c := by
  unfold next
  split
  · exact Function.update_of_ne (by rintro rfl; exact he rfl) ..
  · split <;> rfl
  · rfl

end Tracked

variable {time : Instant} {es fs : List Event} {e : Event} {s t u : Tracked}

/-- Numbers change nothing: every run can be tracked. -/
theorem exists_tracked {state : State} (hrun : Run Step (.initial time) es state) :
    ∃ s, Run Tracked.Step (.initial time) es s ∧ s.state = state := by
  induction hrun with
  | nil => exact ⟨.initial time, .nil, rfl⟩
  | @snoc es state state' e _ hstep ih =>
      obtain ⟨s, hs, rfl⟩ := ih
      exact ⟨s.next e state', hs.snoc ⟨state', hstep, rfl⟩, s.next_state e state'⟩

/-- A caller waits to store what it has read. -/
def Storing (s : State) (c : Nat) (now : Instant) (pid : UInt32) (forceRefresh : Bool)
    (regions : List ParsedRegion) : Prop :=
  ∃ call next, s.callers c = some ⟨call, .storing now pid forceRefresh regions next⟩

section

variable {c : Nat} {now : Instant} {pid : UInt32} {forceRefresh : Bool}
  {regions : List ParsedRegion}

/-- A caller that has gone on waits to store what it has just read. -/
theorem storing_setCaller {s : State} {c' : Nat} {call : Call} {position : Position}
    (h : Storing (s.setCaller c' call position) c now pid forceRefresh regions) :
    (c ≠ c' ∧ Storing s c now pid forceRefresh regions) ∨
      (c = c' ∧ ∃ next, position = .storing now pid forceRefresh regions next) := by
  obtain ⟨call', next, hc⟩ := h
  by_cases hcc : c = c'
  · subst hcc
    rw [State.setCaller_self] at hc
    cases hc
    exact .inr ⟨rfl, next, rfl⟩
  · rw [State.setCaller_of_ne _ hcc] at hc
    exact .inl ⟨hcc, call', next, hc⟩

/-- A caller that waits to store has been waiting, or has just read. -/
theorem Step.storing {s t : State} (hstep : Step s e t)
    (h : Storing t c now pid forceRefresh regions) :
    (e.caller ≠ some c ∧ Storing s c now pid forceRefresh regions) ∨
      ∃ time, e = .read c pid time regions := by
  cases hstep with
  | tick nanos => exact .inl ⟨by simp [Event.caller], h⟩
  | read regions' hc =>
      rcases storing_setCaller h with ⟨hne, h⟩ | ⟨rfl, next, heq⟩
      · exact .inl ⟨by simpa [Event.caller] using hne.symm, h⟩
      · cases heq
        exact .inr ⟨_, rfl⟩
  | _ =>
      rcases storing_setCaller h with ⟨hne, h⟩ | ⟨rfl, next, heq⟩
      · exact .inl ⟨by simpa [Event.caller] using hne.symm, h⟩
      · cases heq

/-- The number of what a caller waits to store. -/
theorem Tracked.Step.storing (hstep : Tracked.Step s e t)
    (h : Storing t.state c now pid forceRefresh regions) :
    (Storing s.state c now pid forceRefresh regions ∧ t.ofCaller c = s.ofCaller c) ∨
      (e.read? = some (pid, regions) ∧ t.ofCaller c = s.reads ∧ t.ofEntry = s.ofEntry) := by
  obtain ⟨state, hact, rfl⟩ := hstep
  rw [s.next_state] at h
  rcases hact.storing h with ⟨he, h⟩ | ⟨time, rfl⟩
  · exact .inl ⟨h, s.next_ofCaller_of_ne state he⟩
  · exact .inr ⟨rfl, Function.update_self .., rfl⟩

/-- An action leaves the entries as they are, or stores what a caller has read. -/
theorem Tracked.Step.entry (hstep : Tracked.Step s e t) :
    (t.state.cache = s.state.cache ∧ t.ofEntry = s.ofEntry) ∨
      ∃ c now pid forceRefresh regions returned,
        Storing s.state c now pid forceRefresh regions ∧
          e = .stored c now pid forceRefresh returned ∧
          shouldUpdate s.state.cache now pid forceRefresh = true ∧
          t.state.cache = Function.update s.state.cache pid (some ⟨now, regions⟩) ∧
          t.ofEntry = Function.update s.ofEntry pid (some (s.ofCaller c)) := by
  obtain ⟨state, hstep, rfl⟩ := hstep
  rw [next_state]
  cases hstep with
  | @store c call now pid forceRefresh next regions hc =>
      by_cases hupdate : shouldUpdate s.state.cache now pid forceRefresh = true
      · refine .inr ⟨c, now, pid, forceRefresh, regions, _, ⟨call, next, hc⟩, rfl, hupdate, ?_, ?_⟩
        · exact refresh_of_shouldUpdate hupdate regions
        · rw [Tracked.next, if_pos hupdate]
      · refine .inl ⟨refresh_of_not_shouldUpdate hupdate regions, ?_⟩
        rw [Tracked.next, if_neg hupdate]
  | _ => exact .inl ⟨rfl, rfl⟩

/-- Who waits to store, and is not turned away, stores. -/
theorem exists_stored (hc : Storing s.state c now pid forceRefresh regions)
    (hupdate : shouldUpdate s.state.cache now pid forceRefresh = true) :
    ∃ returned t, Tracked.Step s (.stored c now pid forceRefresh returned) t ∧
      t.state.cache = Function.update s.state.cache pid (some ⟨now, regions⟩) ∧
      t.ofEntry = Function.update s.ofEntry pid (some (s.ofCaller c)) := by
  obtain ⟨call, next, hc⟩ := hc
  refine ⟨_, _, ⟨_, .store hc, rfl⟩, ?_, ?_⟩
  · rw [s.next_state]
    exact refresh_of_shouldUpdate hupdate regions
  · rw [Tracked.next, if_pos hupdate]

end

/-! ## Rollbacks -/

/-- An entry has been replaced by regions that were read before the ones it held. -/
def RolledBack (s t : Tracked) : Prop :=
  ∃ pid m n, s.ofEntry pid = some m ∧ t.ofEntry pid = some n ∧ n < m

/-- When regions are stored, a caller that has read the file of the same process before, and is
still to store, is unforced and was called less than a second after. -/
def InOrder (s : Tracked) : Event → Prop
  | .stored c now pid forceRefresh _ =>
      shouldUpdate s.state.cache now pid forceRefresh = true →
        ∀ c' now' forceRefresh' regions', Storing s.state c' now' pid forceRefresh' regions' →
          s.ofCaller c' < s.ofCaller c → forceRefresh' = false ∧ now' - now < second
  | _ => True

/-- The numbers are those of the reads. -/
structure Numbered (es : List Event) (s : Tracked) : Prop where
  reads : (es.filterMap Event.read?).length = s.reads
  caller : ∀ c now pid forceRefresh regions, Storing s.state c now pid forceRefresh regions →
    (es.filterMap Event.read?)[s.ofCaller c]? = some (pid, regions)
  entry : ∀ pid cached, s.state.cache pid = some cached →
    ∃ n, s.ofEntry pid = some n ∧ (es.filterMap Event.read?)[n]? = some (pid, cached.regions)
  empty : ∀ pid, s.state.cache pid = none → s.ofEntry pid = none

theorem numbered_initial : Numbered [] (.initial time) where
  reads := rfl
  caller := by simp [Tracked.initial, State.initial, Storing]
  entry := by simp [Tracked.initial, State.initial]
  empty _ _ := rfl

theorem Numbered.step (h : Numbered es s) (hstep : Tracked.Step s e t) :
    Numbered (es ++ [e]) t := by
  have hold : ∀ {n : Nat} {found : UInt32 × List ParsedRegion},
      (es.filterMap Event.read?)[n]? = some found →
        ((es ++ [e]).filterMap Event.read?)[n]? = some found := by
    intro n found hn
    obtain ⟨hlt, -⟩ := List.getElem?_eq_some_iff.mp hn
    rw [filterMap_snoc, List.getElem?_append_left hlt, hn]
  refine ⟨?_, fun c now pid forceRefresh regions hc ↦ ?_, fun pid cached hcached ↦ ?_,
    fun pid hnone ↦ ?_⟩
  · obtain ⟨state, -, rfl⟩ := hstep
    rw [s.next_reads, ← h.reads, filterMap_snoc, List.length_append]
  · rcases hstep.storing hc with ⟨hc, hnumber⟩ | ⟨hread, hnumber, -⟩
    · rw [hnumber]
      exact hold (h.caller c now pid forceRefresh regions hc)
    · rw [hnumber, ← h.reads, filterMap_snoc, hread]
      simp
  · rcases hstep.entry with ⟨hcache, hentry⟩ |
      ⟨c, now, pid', forceRefresh, regions, _, hc, -, -, hcache, hentry⟩
    · obtain ⟨n, hn, hfound⟩ := h.entry pid cached (hcache ▸ hcached)
      exact ⟨n, hentry ▸ hn, hold hfound⟩
    · by_cases hp : pid = pid'
      · subst hp
        rw [hcache, Function.update_self] at hcached
        obtain rfl := Option.some.inj hcached
        exact ⟨s.ofCaller c, by rw [hentry, Function.update_self],
          hold (h.caller c now pid forceRefresh regions hc)⟩
      · rw [hcache, Function.update_of_ne hp] at hcached
        obtain ⟨n, hn, hfound⟩ := h.entry pid cached hcached
        exact ⟨n, by rw [hentry, Function.update_of_ne hp, hn], hold hfound⟩
  · rcases hstep.entry with ⟨hcache, hentry⟩ |
      ⟨c, now, pid', forceRefresh, regions, _, hc, -, -, hcache, hentry⟩
    · rw [hentry]
      exact h.empty pid (hcache ▸ hnone)
    · by_cases hp : pid = pid'
      · rw [hcache, hp, Function.update_self] at hnone
        cases hnone
      · rw [hcache, Function.update_of_ne hp] at hnone
        rw [hentry, Function.update_of_ne hp]
        exact h.empty pid hnone

/-- Where no two reads have found the same, the regions of an entry tell which read it is from. -/
theorem Numbered.entry_eq (h : Numbered es s) {pid : UInt32} {cached : CachedMaps} {n : Nat}
    (hcached : s.state.cache pid = some cached) (hnodup : (es.filterMap Event.read?).Nodup)
    (hfound : (es.filterMap Event.read?)[n]? = some (pid, cached.regions)) :
    s.ofEntry pid = some n := by
  obtain ⟨m, hm, hfound'⟩ := h.entry pid cached hcached
  obtain ⟨hlt, -⟩ := List.getElem?_eq_some_iff.mp hfound
  obtain rfl := (List.getElem?_inj hlt hnodup).mp (hfound.trans hfound'.symm)
  exact hm

/-- An entry is from a read. -/
theorem Numbered.lt_reads (h : Numbered es s) {pid : UInt32} {n : Nat}
    (hn : s.ofEntry pid = some n) : n < s.reads := by
  rcases hcache : s.state.cache pid with _ | cached
  · cases hn.symm.trans (h.empty pid hcache)
  · obtain ⟨m, hm, hfound⟩ := h.entry pid cached hcache
    obtain rfl := Option.some.inj (hn.symm.trans hm)
    obtain ⟨hlt, -⟩ := List.getElem?_eq_some_iff.mp hfound
    rwa [← h.reads]

/-- **No caller is left behind.**  Who waits to store an older read than that of the entry will
find the entry fresh. -/
def Settled (s : Tracked) : Prop :=
  ∀ pid cached n c now forceRefresh regions, s.state.cache pid = some cached →
    s.ofEntry pid = some n → Storing s.state c now pid forceRefresh regions → s.ofCaller c < n →
      forceRefresh = false ∧ now - cached.loadedAt < second

/-- **The step lemma.** -/
theorem Settled.step (h : Settled s) (hnum : Numbered es s) (hok : InOrder s e)
    (hstep : Tracked.Step s e t) : Settled t := by
  intro pid cached n c now forceRefresh regions hcached hn hc hlt
  rcases hstep.storing hc with ⟨hc, hnumber⟩ | ⟨-, hnumber, hentry⟩
  swap
  · -- who has just read is not behind
    have := hnum.lt_reads (hentry ▸ hn)
    omega
  rcases hstep.entry with ⟨hcache, hentry⟩ |
    ⟨c', now', pid', forceRefresh', regions', _, hc', rfl, hupdate, hcache, hentry⟩
  · exact h pid cached n c now forceRefresh regions (hcache ▸ hcached) (hentry ▸ hn) hc
      (hnumber ▸ hlt)
  · by_cases hp : pid = pid'
    · subst hp
      rw [hcache, Function.update_self] at hcached
      rw [hentry, Function.update_self] at hn
      obtain rfl := Option.some.inj hcached
      obtain rfl := Option.some.inj hn
      exact hok hupdate c now forceRefresh regions hc (hnumber ▸ hlt)
    · rw [hcache, Function.update_of_ne hp] at hcached
      rw [hentry, Function.update_of_ne hp] at hn
      exact h pid cached n c now forceRefresh regions hcached hn hc (hnumber ▸ hlt)

/-- An action in order replaces no entry by an older one. -/
theorem Settled.le (h : Settled s) (hnum : Numbered es s) (hstep : Tracked.Step s e t)
    {pid : UInt32} {m : Nat} (hm : s.ofEntry pid = some m) :
    ∃ n, t.ofEntry pid = some n ∧ m ≤ n := by
  rcases hstep.entry with ⟨-, hentry⟩ |
    ⟨c, now, pid', forceRefresh, regions, _, hc, rfl, hupdate, -, hentry⟩
  · exact ⟨m, hentry ▸ hm, Nat.le_refl m⟩
  · by_cases hp : pid = pid'
    · subst hp
      refine ⟨s.ofCaller c, by rw [hentry, Function.update_self], ?_⟩
      by_contra hlt
      rcases hcached : s.state.cache pid with _ | cached
      · cases hm.symm.trans (hnum.empty pid hcached)
      · obtain ⟨rfl, hfresh⟩ :=
          h pid cached m c now forceRefresh regions hcached hm hc (Nat.lt_of_not_le hlt)
        have hstale : second ≤ now - cached.loadedAt := by
          simpa [shouldUpdate, hcached, stale] using hupdate
        exact Nat.not_lt_of_le hstale hfresh
    · exact ⟨m, by rw [hentry, Function.update_of_ne hp, hm], Nat.le_refl m⟩

/-- The numbers are right in every run. -/
theorem numbered (hrun : Run Tracked.Step (.initial time) es s) : Numbered es s :=
  hrun.invariant numbered_initial fun _ _ _ _ _ h hstep ↦ h.step hstep

/-- **The run lemma.** -/
theorem settled (hrun : Run (Guarded Tracked.Step InOrder) (.initial time) es s) : Settled s := by
  induction hrun with
  | nil =>
      intro pid cached n c now forceRefresh regions hcached
      cases hcached
  | snoc hr hstep ih => exact ih.step (numbered hr.of_guarded) hstep.1 hstep.2

/-- An entry is never replaced by an older one in a run in order. -/
theorem le_of_run (hrun : Run (Guarded Tracked.Step InOrder) (.initial time) es s)
    (hrest : Run (Guarded Tracked.Step InOrder) s fs t) {pid : UInt32} {m : Nat}
    (hm : s.ofEntry pid = some m) : ∃ n, t.ofEntry pid = some n ∧ m ≤ n := by
  induction hrest with
  | nil => exact ⟨m, hm, Nat.le_refl m⟩
  | snoc hr hstep ih =>
      obtain ⟨n, hn, hle⟩ := ih
      have hall := hrun.append hr
      obtain ⟨n', hn', hle'⟩ := (settled hall).le (numbered hall.of_guarded) hstep.2 hn
      exact ⟨n', hn', hle.trans hle'⟩

/-- **An action out of order** may be followed by a rollback. -/
theorem exists_rolledBack (hstep : Tracked.Step s e t) (hno : ¬ InOrder s e) :
    ∃ e' u, Tracked.Step t e' u ∧ RolledBack t u := by
  cases e with
  | stored c now pid forceRefresh returned =>
      simp only [InOrder, not_forall] at hno
      obtain ⟨hupdate, c', now', forceRefresh', regions', ⟨call', next', hc'⟩, hlt, hlate⟩ := hno
      have hne : c' ≠ c := by
        rintro rfl
        exact Nat.lt_irrefl _ hlt
      have hnumber : t.ofCaller c' = s.ofCaller c' := by
        obtain ⟨state, -, rfl⟩ := hstep
        exact s.next_ofCaller_of_ne state (by simpa [Event.caller] using hne.symm)
      obtain ⟨state, hact, ht⟩ := hstep
      cases hact with
      | @store _ call _ _ _ next regions hc =>
          have hcache : t.state.cache pid = some ⟨now, regions⟩ := by
            rw [ht, s.next_state, State.setCaller, refresh_of_shouldUpdate hupdate]
            exact Function.update_self ..
          have hentry : t.ofEntry pid = some (s.ofCaller c) := by
            rw [ht, Tracked.next, if_pos hupdate]
            exact Function.update_self ..
          have hwaits : t.state.callers c' =
              some ⟨call', .storing now' pid forceRefresh' regions' next'⟩ := by
            rw [ht, s.next_state, State.setCaller_of_ne _ hne]
            exact hc'
          -- the other caller is not turned away
          have hupdate' : shouldUpdate t.state.cache now' pid forceRefresh' = true := by
            rw [not_and, Nat.not_lt] at hlate
            cases forceRefresh' with
            | true => rfl
            | false => exact shouldUpdate_of_le hcache (hlate rfl) false
          obtain ⟨_, u, hu, -, hentry'⟩ := exists_stored ⟨call', next', hwaits⟩ hupdate'
          refine ⟨_, u, hu, pid, s.ofCaller c, s.ofCaller c', hentry, ?_, hlt⟩
          rw [hentry', hnumber, Function.update_self]
  | _ => exact absurd trivial hno

/-! ## Runs in order -/

/-- Nobody waits to store. -/
def Idle (s : State) : Prop :=
  ∀ c now pid forceRefresh regions, ¬ Storing s c now pid forceRefresh regions

theorem Idle.setCaller {s : State} (h : Idle s) {c : Nat} {call : Call} {position : Position}
    (hposition : ∀ now pid forceRefresh regions next,
      position ≠ .storing now pid forceRefresh regions next) :
    Idle (s.setCaller c call position) := by
  intro c' now pid forceRefresh regions hc'
  rcases storing_setCaller hc' with ⟨-, hc'⟩ | ⟨-, next, heq⟩
  · exact h c' now pid forceRefresh regions hc'
  · exact hposition now pid forceRefresh regions next heq

theorem Step.callers_eq {s t : State} (hstep : Step s e t) {c : Nat} (he : e.caller ≠ some c) :
    t.callers c = s.callers c := by
  have hne : ∀ {c' : Nat}, e.caller = some c' → c ≠ c' := by
    rintro c' hc' rfl
    exact he hc'
  cases hstep with
  | tick nanos => rfl
  | _ => exact State.setCaller_of_ne _ (hne rfl) ..

/-- **A refresh in order.**  When nobody waits to store, a new caller can read the file and store
what it has found. -/
theorem exists_refresh (hidle : Idle s.state) {c : Nat} (hc : s.state.callers c = none)
    (pid : UInt32) (regions : List ParsedRegion) :
    ∃ fs t, Run (Guarded Tracked.Step InOrder) s fs t ∧ t.ofEntry pid = some s.reads ∧
      t.reads = s.reads + 1 ∧ Idle t.state ∧
      ∀ c', c' ≠ c → t.state.callers c' = s.state.callers c' := by
  let call : Call := .list pid
  let next : Except Str (List ParsedRegion) → Prog Result := fun regions ↦
    .done (.list (regions.map fun regions ↦ regions.map fun region ↦ region.region))
  let now := s.state.time
  let s₁ := s.state.setCaller c call (.running call.program)
  let s₂ := s₁.setCaller c call (.running (.regionsWith now pid true next))
  let s₃ := s₂.setCaller c call (.reading now pid true next)
  let s₄ := s₃.setCaller c call (.storing now pid true regions next)
  have hstart : s₁.callers c = some ⟨call, .running (.now fun t ↦ .regionsWith t pid true next)⟩ :=
    State.setCaller_self ..
  have h₁ : Step s.state (.called c call) s₁ := .call call hc
  have h₂ : Step s₁ (.clock c now) s₂ := .clock hstart
  have h₃ : Step s₂ (.missed c now pid true) s₃ := .miss (State.setCaller_self ..) rfl
  have h₄ : Step s₃ (.read c pid now regions) s₄ := .read regions (State.setCaller_self ..)
  let t₄ : Tracked := { s with
    state := s₄, reads := s.reads + 1, ofCaller := Function.update s.ofCaller c s.reads }
  have hread : Run (Guarded Tracked.Step InOrder) s
      [.called c call, .clock c now, .missed c now pid true, .read c pid now regions] t₄ :=
    .cons (t := { s with state := s₁ }) ⟨trivial, s₁, h₁, rfl⟩ <|
    .cons (t := { s with state := s₂ }) ⟨trivial, s₂, h₂, rfl⟩ <|
    .cons (t := { s with state := s₃ }) ⟨trivial, s₃, h₃, rfl⟩ <|
    .single ⟨trivial, s₄, h₄, rfl⟩
  have hwaits : Storing t₄.state c now pid true regions :=
    ⟨call, next, State.setCaller_self ..⟩
  -- nobody else waits
  have halone : ∀ c' now' pid' forceRefresh' regions',
      Storing s₄ c' now' pid' forceRefresh' regions' → c' = c := by
    intro c' now' pid' forceRefresh' regions' hc'
    rcases storing_setCaller hc' with ⟨-, hc'⟩ | ⟨hcc, -⟩
    · have hidle₃ : Idle s₃ := ((hidle.setCaller (by simp)).setCaller (by simp)).setCaller (by simp)
      exact absurd hc' (hidle₃ c' now' pid' forceRefresh' regions')
    · exact hcc
  obtain ⟨returned, t, ht, -, hentry⟩ := exists_stored hwaits rfl
  have horder : InOrder t₄ (.stored c now pid true returned) := by
    intro _ c' now' forceRefresh' regions' hc' hlt
    obtain rfl := halone c' now' pid forceRefresh' regions' hc'
    exact absurd hlt (Nat.lt_irrefl _)
  obtain ⟨state, hact, rfl⟩ := ht
  refine ⟨_, _, hread.snoc ⟨horder, state, hact, rfl⟩, ?_, ?_, ?_, fun c' hne ↦ ?_⟩
  · rw [hentry, Function.update_self]
    exact congrArg some (Function.update_self ..)
  · rw [Tracked.next_reads]
    rfl
  · rw [Tracked.next_state]
    intro c' now' pid' forceRefresh' regions' hc'
    rcases hact.storing hc' with ⟨hne, hc'⟩ | ⟨time, heq⟩
    · exact hne (congrArg some (halone c' now' pid' forceRefresh' regions' hc').symm)
    · cases heq
  · have hother : ∀ {call' position} {s' : State},
        (s'.setCaller c call' position).callers c' = s'.callers c' :=
      State.setCaller_of_ne _ hne _ _
    rw [Tracked.next_state, hact.callers_eq (by simpa [Event.caller] using hne.symm)]
    calc s₄.callers c' = s₃.callers c' := hother
      _ = s₂.callers c' := hother
      _ = s₁.callers c' := hother
      _ = s.state.callers c' := hother

/-! ## The laws -/

/-- What holds of the entries in a run in order, `s` and `t` being any two of its states. -/
structure RefreshLaws (es : List Event) (s t : Tracked) : Prop where
  /-- The numbers are those of the reads. -/
  numbered : Numbered es t
  kept : ¬ RolledBack s t
  /-- The first action out of order may be followed by a rollback. -/
  sharp : ∀ e u, Tracked.Step t e u → ¬ InOrder t e →
    ∃ e' v, Tracked.Step u e' v ∧ RolledBack u v

/-- **Refreshes.**  A run in order rolls no entry back. -/
theorem refreshLaws (hrun : Run (Guarded Tracked.Step InOrder) (.initial time) es s)
    (hrest : Run (Guarded Tracked.Step InOrder) s fs t) : RefreshLaws (es ++ fs) s t where
  numbered := Maps.numbered (hrun.append hrest).of_guarded
  kept := by
    rintro ⟨pid, m, n, hm, hn, hlt⟩
    obtain ⟨n', hn', hle⟩ := le_of_run hrun hrest hm
    obtain rfl := Option.some.inj (hn.symm.trans hn')
    omega
  sharp _ _ := exists_rolledBack

/-- Two refreshes, one after the other. -/
theorem refreshLaws_two :
    ∃ es fs s t, Run (Guarded Tracked.Step InOrder) (.initial 0) es s ∧
      Run (Guarded Tracked.Step InOrder) s fs t ∧ s.ofEntry 7 = some 0 ∧ t.ofEntry 7 = some 1 ∧
        RefreshLaws (es ++ fs) s t := by
  have hidle : Idle (Tracked.initial 0).state := by
    simp [Idle, Storing, Tracked.initial, State.initial]
  obtain ⟨es, s, hs, hentry, hreads, hidle, hcallers⟩ := exists_refresh (c := 0) hidle rfl 7 []
  have hnew : s.state.callers 1 = none := hcallers 1 (by decide)
  obtain ⟨fs, t, ht, hentry', -⟩ := exists_refresh hidle hnew 7 []
  exact ⟨es, fs, s, t, hs, ht, hentry, by rw [hentry', hreads]; rfl, refreshLaws hs ht⟩

/-- Two unforced calls.  The second begins a second after the first, reads first and stores last:
the region that the first has found is lost again. -/
theorem not_kept :
    ¬ ∀ (time : Instant) (es : List Event) (s : Tracked) (e : Event) (t : Tracked),
      Run Tracked.Step (.initial time) es s → Tracked.Step s e t → ¬ RolledBack s t := by
  intro hkept
  let call : Call := .resolve 7 16
  obtain ⟨next, hprogram⟩ : ∃ next : Instant → Except Str (List ParsedRegion) → Prog Result,
      call.program = .now fun t ↦ .regionsWith t 7 false (next t) := ⟨_, rfl⟩
  let region : ParsedRegion := ⟨0, 32, default⟩
  let s₁ := (State.initial 0).setCaller 0 call (.running call.program)
  let s₂ := s₁.setCaller 0 call (.running (.regionsWith 0 7 false (next 0)))
  let s₃ : State := { s₂ with time := s₂.time + second }
  let s₄ := s₃.setCaller 1 call (.running call.program)
  let s₅ := s₄.setCaller 1 call (.running (.regionsWith s₄.time 7 false (next s₄.time)))
  let s₆ := s₅.setCaller 0 call (.reading 0 7 false (next 0))
  let s₇ := s₆.setCaller 1 call (.reading s₄.time 7 false (next s₄.time))
  let s₈ := s₇.setCaller 1 call (.storing s₄.time 7 false [] (next s₄.time))
  let s₉ := s₈.setCaller 0 call (.storing 0 7 false [region] (next 0))
  have h₁ : Step (.initial 0) (.called 0 call) s₁ := .call call rfl
  have hcall : some (Caller.mk call (.running call.program)) =
      some ⟨call, .running (.now fun t ↦ .regionsWith t 7 false (next t))⟩ := by rw [hprogram]
  have hcall₁ : s₁.callers 0 = _ := hcall
  have h₂ : Step s₁ (.clock 0 s₁.time) s₂ := .clock hcall₁
  have h₃ : Step s₂ (.ticked second) s₃ := .tick second
  have h₄ : Step s₃ (.called 1 call) s₄ := .call call rfl
  have hcall₄ : s₄.callers 1 = _ := hcall
  have h₅ : Step s₄ (.clock 1 s₄.time) s₅ := .clock hcall₄
  have h₆ : Step s₅ (.missed 0 0 7 false) s₆ := .miss rfl rfl
  have h₇ : Step s₆ (.missed 1 s₄.time 7 false) s₇ := .miss rfl rfl
  have h₈ : Step s₇ (.read 1 7 s₇.time []) s₈ := .read [] rfl
  have h₉ : Step s₈ (.read 0 7 s₈.time [region]) s₉ := .read [region] rfl
  have hwaits₉ : s₉.callers 0 = some ⟨call, .storing 0 7 false [region] (next 0)⟩ := rfl
  have h₁₀ := Step.store hwaits₉
  have hrun := Run.cons h₁ (.cons h₂ (.cons h₃ (.cons h₄ (.cons h₅ (.cons h₆ (.cons h₇ (.cons h₈
    (.cons h₉ (.single h₁₀)))))))))
  obtain ⟨t, ht, hstate⟩ := exists_tracked hrun
  have hwaits : t.state.callers 1 = some ⟨call, .storing s₄.time 7 false [] (next s₄.time)⟩ := by
    rw [hstate]
    rfl
  have hcached : t.state.cache 7 = some ⟨0, [region]⟩ := by
    rw [hstate]
    rfl
  have htime : s₄.time = 0 + second := rfl
  have hupdate : shouldUpdate t.state.cache s₄.time 7 false = true :=
    shouldUpdate_of_le hcached (by rw [htime, Nat.zero_add, Nat.sub_zero]) false
  obtain ⟨_, u, hu, hcache, -⟩ := exists_stored ⟨call, _, hwaits⟩ hupdate
  have hcached' : u.state.cache 7 = some ⟨s₄.time, []⟩ := by rw [hcache, Function.update_self]
  have hreads : [((7 : UInt32), ([] : List ParsedRegion)), (7, [region])].Nodup := by decide
  refine hkept _ _ _ _ _ ht hu ⟨7, 1, 0, ?_, ?_, by decide⟩
  · exact (numbered ht).entry_eq hcached hreads rfl
  · exact (numbered (ht.snoc hu)).entry_eq hcached' hreads rfl

end Pwatch.Maps
