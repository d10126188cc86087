import Pwatch.Server.Breakpoints

/-!
# Runs that are possible

A watch goes on inside the server as it does alone (`run_watch`); an admitted create
whose request is sound can always register its breakpoint (`run_create`), answered or not;
a registered breakpoint can be deleted (`run_delete`); a watch whose polls keep failing leaves
its loop (`run_giveUp`).
-/

namespace Pwatch.Watch

variable {config : WatchConfig} {s : State}

/-- A pass in which every poll fails. -/
theorem run_failedPolls {pending : List Int32} {n : Nat} (hp : s.phase = .polling pending n) :
    Run (Step config) s (pending.map .pollFailed)
      { s with phase := .polling [] (n + pending.length) } := by
  induction pending generalizing s n with
  | nil =>
      have hs : { s with phase := .polling [] (n + 0) } = s := by
        rw [Nat.add_zero, ← hp]
      exact hs.symm ▸ .nil
  | cons id pending ih =>
      have hstep : Step config s (.pollFailed id) { s with phase := .polling pending (n + 1) } :=
        .pollFailed hp
      have hrest := ih (s := { s with phase := .polling pending (n + 1) }) rfl
      rw [Nat.add_assoc, Nat.add_comm 1] at hrest
      exact Run.cons hstep hrest

/-- The events of a failing pass are the business of the watch alone. -/
theorem quiet_of_mem_failedPass {ids : List Int32} {e : Event}
    (he : e ∈ .loaded false :: ids.map .pollFailed ++ [.passed]) : Server.Quiet e := by
  have hcases : e = .loaded false ∨ (∃ id, e = .pollFailed id) ∨ e = .passed := by
    simp only [List.cons_append, List.mem_cons, List.mem_append, List.mem_map, List.not_mem_nil,
      or_false] at he
    rcases he with rfl | ⟨id, -, rfl⟩ | rfl
    · exact .inl rfl
    · exact .inr (.inl ⟨id, rfl⟩)
    · exact .inr (.inr rfl)
  rcases hcases with rfl | ⟨id, rfl⟩ | rfl <;> simp [Server.Quiet]

/-- From the head of the loop to the end of a failing pass. -/
theorem run_failedPass (hp : s.phase = .head) (hcancel : s.cancel = false) :
    Run (Step config) s (.loaded false :: s.breakpoints.map .pollFailed)
      { s with phase := .polling [] s.breakpoints.length } := by
  have h : Run (Step config) { s with phase := .polling s.breakpoints 0 } _ _ :=
    run_failedPolls rfl
  rw [Nat.zero_add] at h
  exact .cons (.enter hp hcancel) h

/-- A watch whose polls keep failing leaves its loop. -/
theorem run_giveUp {k : Nat} (hp : s.phase = .head) (hcancel : s.cancel = false)
    (hk : s.consecutiveErrors + (k + 1) = 10) :
    ∃ es, (∀ e ∈ es, Server.Quiet e) ∧ Run (Step config) s es
      { s with consecutiveErrors := 10, phase := .removing s.breakpoints } := by
  have hpolls : Run (Step config) s _ _ := run_failedPass hp hcancel
  have herrors : errorsAfter { s with phase := .polling [] s.breakpoints.length }
      s.breakpoints.length = s.consecutiveErrors + 1 := if_pos rfl
  induction k generalizing s with
  | zero =>
      have hten : s.consecutiveErrors + 1 = 10 := hk
      have hstep : Step config { s with phase := .polling [] s.breakpoints.length } .passed _ :=
        .giveUp rfl (by rw [herrors, hten]; decide)
      rw [herrors, hten] at hstep
      exact ⟨_, fun e ↦ quiet_of_mem_failedPass, hpolls.snoc hstep⟩
  | succ k ih =>
      have hstep : Step config { s with phase := .polling [] s.breakpoints.length } .passed _ :=
        .pass rfl (by rw [herrors]; omega)
      rw [herrors] at hstep
      let s' : State := { s with consecutiveErrors := s.consecutiveErrors + 1 }
      have hwake : Run (Step config) s
          (.loaded false :: s.breakpoints.map .pollFailed ++ [.passed] ++ [.woken])
          { s' with phase := .head } := (hpolls.snoc hstep).snoc (.wake rfl)
      have hhead : { s' with phase := .head } = s' := by rw [← hp]
      rw [hhead] at hwake
      obtain ⟨es, hquiet, hrun⟩ := ih (s := s') hp hcancel
        (by change s.consecutiveErrors + 1 + _ = _; omega) (run_failedPass hp hcancel) (if_pos rfl)
      refine ⟨_, ?_, hwake.append hrun⟩
      intro e he
      rcases List.mem_append.mp he with he | he
      · rcases List.mem_append.mp he with he | he
        · exact quiet_of_mem_failedPass he
        · rw [List.mem_singleton.mp he]
          simp [Server.Quiet]
      · exact hquiet e he

end Pwatch.Watch

namespace Pwatch.Server

open Watch Maps

variable {arch : Arch} {s : Registry} {r : Nat}

/-- A watch goes on inside the server as it does alone. -/
theorem run_watch {l : Launched} {es : List Watch.Event} {w : Watch.State}
    (hl : (s.creates r).launched = some l) (hrun : Run (Watch.Step l.config) l.watch es w)
    (hquiet : ∀ e ∈ es, Quiet e) :
    Run (Step arch) s (es.map (.watch r))
      (s.setCreate r { s.creates r with launched := some { l with watch := w } }) := by
  induction hrun with
  | nil =>
      have hs : s.setCreate r { s.creates r with launched := some { l with watch := l.watch } }
          = s := s.setCreate_eq_self r _ (by rw [← hl])
      exact hs.symm ▸ .nil
  | @snoc es w w' e _ hstep ih =>
      have hes : ∀ e ∈ es, Quiet e := fun e he ↦ hquiet e (List.mem_append_left _ he)
      have hlast : Quiet e := hquiet e (by simp)
      have hself : ((s.setCreate r { s.creates r with
          launched := some { l with watch := w } }).creates r).launched =
            some { l with watch := w } := by rw [Registry.setCreate_creates_self]
      have hwatch : Step arch _ _ _ := .watch hself hstep hlast
      rw [Registry.setCreate_setCreate, Registry.setCreate_creates_self] at hwatch
      rw [List.map_append]
      exact (ih hes).snoc hwatch

/-- The start of a watch on one thread. -/
theorem run_start (config : WatchConfig) (hthread : config.thread = false) (tid : UInt32)
    (id : Int32) :
    Run (Watch.Step config) .initial [.opened, .listed [tid], .created (config.createCall tid) id]
      ⟨[tid], [id], .creating [], 0, false⟩ :=
  .cons (.opened rfl) (.cons (.listAll rfl hthread (by simp)) (.single (.create rfl)))

/-- A registered breakpoint can be deleted, which stops its watch. -/
theorem run_delete {l : Launched} {d : Nat} {id : UInt64} (hdelete : s.deletes d = .idle)
    (hlock : s.lock = .free)
    (hentry : (s.breakpoints.lookup id).map (fun entry ↦ entry.watch) = some r)
    (hl : (s.creates r).launched = some l) (hstarted : l.watch.phase.Started) :
    ∃ t, Run (Step arch) s [.deleteLocked d, .removed d id r, .stopped d r] t ∧
      (t.creates r).launched = some { l with watch := { l.watch with cancel := true } } := by
  obtain ⟨entry, hfound, rfl⟩ := Option.map_eq_some_iff.mp hentry
  let s₁ : Registry := { s with lock := .delete d id }
  let s₂ : Registry := { s₁ with
    breakpoints := s₁.breakpoints.erase id
    lock := .free }.setDelete d (.stopping id entry.watch)
  have hlocked : Step arch s (.deleteLocked d) s₁ := .lockDelete hdelete hlock
  have hremoved : Step arch s₁ (.removed d id entry.watch) s₂ := .remove rfl hfound
  have hstopped : Step arch s₂ (.stopped d entry.watch) _ :=
    .stop (Registry.setDelete_deletes_self ..) hl (.stop hstarted)
  refine ⟨_, .cons hlocked (.cons hremoved (.single hstopped)), ?_⟩
  rw [Registry.setDelete_creates, Registry.setCreate_creates_self]

section Job

variable {request : CreateBreakpointRequest} {typeLen : UInt32 × UInt32}
  {filter : Option Filter.RegFilter} {reply : Option Reply}

/-- The checks of a sound request, up to `fetch_add`. -/
theorem run_checks (hc : s.creates r = ⟨.admitted request, none, reply⟩)
    (htype : watchpointType request = .ok typeLen)
    (hfilter : parsedFilter arch request = .ok filter)
    (value : UInt64) (map : Option MapRegion) :
    Run (Step arch) s [.went r, .went r, .went r]
      (s.setCreate r ⟨.numbering (watchConfig request typeLen (resolvedAddress request value map)
        filter) (resolvedAddress request value map), none, reply⟩) := by
  let c₁ : Create := ⟨.resolving request typeLen, none, reply⟩
  let c₂ : Create := ⟨.filtering request typeLen (resolvedAddress request value map), none, reply⟩
  have h₁ : Step arch s (.went r) (s.setCreate r c₁) := by
    have h : Step arch s (.went r) _ := .checkType (by rw [hc]) htype
    rwa [hc] at h
  have h₂ : Step arch (s.setCreate r c₁) (.went r) (s.setCreate r c₂) := by
    have h := @Step.resolve arch (s.setCreate r c₁) r request typeLen value map
      (by rw [Registry.setCreate_creates_self])
    rwa [Registry.setCreate_setCreate, Registry.setCreate_creates_self] at h
  have h₃ : Step arch (s.setCreate r c₂) (.went r) _ :=
    .parseFilter (by rw [Registry.setCreate_creates_self]) hfilter
  rw [Registry.setCreate_setCreate, Registry.setCreate_creates_self] at h₃
  exact .cons h₁ (.cons h₂ (.single h₃))

/-- The job of a create from `fetch_add` on, for a process with one thread. -/
def registerEvents (s : Registry) (r : Nat) (config : WatchConfig) (tid : UInt32) (id : Int32) :
    List Event :=
  .numbered r s.nextBreakpointId ::
    ([.opened, .listed [tid], .created (config.createCall tid) id].map (.watch r) ++
      [.watch r .started, .insertLocked r, .inserted r s.nextBreakpointId
        (s.breakpoints.lookup s.nextBreakpointId)])

/-- The state in which the job of a create has registered its breakpoint. -/
def afterRegister (s : Registry) (r : Nat) (config : WatchConfig) (id : Int32)
    (view : BreakpointView) (reply : Option Reply) : Registry :=
  { s with
    nextBreakpointId := s.nextBreakpointId + 1
    breakpoints := s.breakpoints.insert view.id ⟨view, r⟩
    lock := .free }.setCreate r
      ⟨.done (.ok view), some ⟨view.id, config, ⟨view.threads, [id], .head, 0, false⟩⟩, reply⟩

/-- A create that has passed its checks can register its breakpoint, answered or not. -/
theorem run_register {config : WatchConfig} {resolved : ResolvedAddress}
    (hc : s.creates r = ⟨.numbering config resolved, none, reply⟩) (hlock : s.lock = .free)
    (hthread : config.thread = false) (tid : UInt32) (id : Int32) (createdAtMs : Nat) :
    Run (Step arch) s (registerEvents s r config tid id)
      (afterRegister s r config id
        (newView s.nextBreakpointId config resolved [tid] createdAtMs) reply) := by
  let n := s.nextBreakpointId
  let view := newView n config resolved [tid] createdAtMs
  let s₁ : Registry := { s with nextBreakpointId := s.nextBreakpointId + 1 }
  let s₂ : Registry := { s₁ with lock := .create r }
  let s₃ : Registry := { s₁ with breakpoints := s.breakpoints.insert n ⟨view, r⟩, lock := .free }
  let l : Watch.State → Option Launched := fun w ↦ some ⟨n, config, w⟩
  let c₁ : Create := ⟨.launching resolved, l .initial, reply⟩
  let c₂ : Create := ⟨.launching resolved, l ⟨[tid], [id], .creating [], 0, false⟩, reply⟩
  let c₃ : Create := ⟨.locking view, l ⟨[tid], [id], .head, 0, false⟩, reply⟩
  let c₄ : Create := ⟨.inserting view, l ⟨[tid], [id], .head, 0, false⟩, reply⟩
  let c₅ : Create := ⟨.done (.ok view), l ⟨[tid], [id], .head, 0, false⟩, reply⟩
  have h₁ : Step arch s (.numbered r n) (s₁.setCreate r c₁) := by
    have h : Step arch s (.numbered r n) _ := .number (by rw [hc])
    rwa [hc] at h
  have h₂ : Run (Step arch) (s₁.setCreate r c₁)
      ([.opened, .listed [tid], .created (config.createCall tid) id].map (.watch r))
      (s₁.setCreate r c₂) := by
    have hquiet : ∀ e ∈ ([.opened, .listed [tid], .created (config.createCall tid) id] :
        List Watch.Event), Quiet e := by simp [Quiet]
    have hself : ((s₁.setCreate r c₁).creates r).launched = l .initial := by
      rw [Registry.setCreate_creates_self]
    have h : Run (Step arch) (s₁.setCreate r c₁) _ _ :=
      run_watch hself (run_start config hthread tid id) hquiet
    rwa [Registry.setCreate_setCreate, Registry.setCreate_creates_self] at h
  have h₃ : Step arch (s₁.setCreate r c₂) (.watch r .started) (s₁.setCreate r c₃) := by
    have h := @Step.launched arch (s₁.setCreate r c₂) r
      ⟨n, config, ⟨[tid], [id], .creating [], 0, false⟩⟩ resolved _ createdAtMs
      (by rw [Registry.setCreate_creates_self]) (by rw [Registry.setCreate_creates_self])
      (.start rfl (by simp))
    rwa [Registry.setCreate_setCreate, Registry.setCreate_creates_self] at h
  have h₄ : Step arch (s₁.setCreate r c₃) (.insertLocked r) (s₂.setCreate r c₄) := by
    have h : Step arch (s₁.setCreate r c₃) (.insertLocked r) _ :=
      .lockInsert (by rw [Registry.setCreate_creates_self]) hlock
    rw [Registry.setCreate_creates_self] at h
    exact (s₂.setCreate_setCreate r c₃ c₄) ▸ h
  have h₅ : Step arch (s₂.setCreate r c₄) (.inserted r n (s.breakpoints.lookup n))
      (s₃.setCreate r c₅) := by
    have hp : ((s₂.setCreate r c₄).creates r).phase = .inserting view := by
      rw [Registry.setCreate_creates_self]
    have h : Step arch (s₂.setCreate r c₄) (.inserted r n _) _ := .insert hp rfl
    rw [Registry.setCreate_creates_self] at h
    exact (s₃.setCreate_setCreate r c₄ c₅) ▸ h
  exact .cons h₁ (h₂.append (.cons h₃ (.cons h₄ (.single h₅))))

theorem afterRegister_setCreate (c : Create) (config : WatchConfig) (id : Int32)
    (view : BreakpointView) (reply : Option Reply) :
    afterRegister (s.setCreate r c) r config id view reply =
      afterRegister s r config id view reply :=
  Registry.setCreate_setCreate { s with
    nextBreakpointId := s.nextBreakpointId + 1
    breakpoints := s.breakpoints.insert view.id ⟨view, r⟩
    lock := .free } r c _

/-- **A sound create succeeds**: an admitted create of a process with one thread can
register its breakpoint, answered or not. -/
theorem run_create (hc : s.creates r = ⟨.admitted request, none, reply⟩) (hlock : s.lock = .free)
    (htype : watchpointType request = .ok typeLen)
    (hfilter : parsedFilter arch request = .ok filter)
    (value : UInt64) (map : Option MapRegion) (tid : UInt32) (id : Int32) (createdAtMs : Nat) :
    let resolved := resolvedAddress request value map
    let config := watchConfig request typeLen resolved filter
    Run (Step arch) s ([.went r, .went r, .went r] ++ registerEvents s r config tid id)
      (afterRegister s r config id
        (newView s.nextBreakpointId config resolved [tid] createdAtMs) reply) := by
  intro resolved config
  let c : Create := ⟨.numbering config resolved, none, reply⟩
  have hregister : Run (Step arch) (s.setCreate r c) (registerEvents s r config tid id) _ :=
    run_register (Registry.setCreate_creates_self ..) hlock rfl tid id createdAtMs
  rw [afterRegister_setCreate] at hregister
  exact (run_checks hc htype hfilter value map).append hregister

/-- The same from the request on. -/
theorem run_admitted_create (hc : s.creates r = ⟨.idle, none, none⟩) (hlock : s.lock = .free)
    (htype : watchpointType request = .ok typeLen)
    (hfilter : parsedFilter arch request = .ok filter)
    (value : UInt64) (map : Option MapRegion) (tid : UInt32) (id : Int32) (createdAtMs : Nat) :
    let resolved := resolvedAddress request value map
    let config := watchConfig request typeLen resolved filter
    Run (Step arch) s
      (.admitted r request :: ([.went r, .went r, .went r] ++ registerEvents s r config tid id))
      (afterRegister s r config id
        (newView s.nextBreakpointId config resolved [tid] createdAtMs) none) := by
  intro resolved config
  let c : Create := ⟨.admitted request, none, none⟩
  have hadmit : Step arch s (.admitted r request) (s.setCreate r c) := by
    have h : Step arch s (.admitted r request) _ := .accept (by rw [hc]) (by rw [hc])
    rwa [hc] at h
  have hcreate : Run (Step arch) (s.setCreate r c) _ _ :=
    run_create (Registry.setCreate_creates_self ..) hlock htype hfilter value map tid id createdAtMs
  rw [afterRegister_setCreate] at hcreate
  exact .cons hadmit hcreate

end Job

end Pwatch.Server
