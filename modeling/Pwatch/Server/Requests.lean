import Pwatch.Server.Ownership

/-!
# What a watch was asked for

Between the body of a `POST /breakpoints` and the calls of the driver stand the steps of one
job, with any number of others in between.  The watch the job starts is the one its body asks
for (`requested`), and each breakpoint the watch polls is one it has created for that
(`exists_created_of_polled`).
-/

namespace Pwatch.Watch

variable {config : WatchConfig} {es : List Event} {s t : State} {e : Event}

/-- A breakpoint is created with the arguments of the configuration. -/
theorem Step.exists_of_createdId (h : Step config s e t) {id : Int32}
    (he : e.createdId = some id) : ∃ tid, e = .created (config.createCall tid) id := by
  cases h with
  | create => exact ⟨_, congrArg _ (Option.some.inj he)⟩
  | _ => cases he

theorem exists_created (hrun : Run (Step config) s es t) {id : Int32} (hid : id ∈ createdIds es) :
    ∃ tid, .created (config.createCall tid) id ∈ es := by
  obtain ⟨e, he, hcreated⟩ := List.mem_filterMap.mp hid
  obtain ⟨before, after, rfl⟩ := List.append_of_mem he
  obtain ⟨u, u', -, hstep, -⟩ := hrun.split_event
  obtain ⟨tid, rfl⟩ := hstep.exists_of_createdId hcreated
  exact ⟨tid, he⟩

/-- A watch polls breakpoints that it has created. -/
theorem Step.mem_createdIds_of_outcome (h : Step config s e t) (hs : History es s) {id : Int32}
    {ok : Bool} (he : e.outcome = some (id, ok)) : id ∈ createdIds es := by
  have hsuffix := hs.toPoll_suffix
  cases h with
  | poll hp | pollFailed hp =>
      cases he
      rw [hp] at hsuffix
      exact hsuffix.subset List.mem_cons_self
  | _ => cases he

end Pwatch.Watch

namespace Pwatch.Server

open Watch

variable {arch : Arch} {es : List Event} {s t : Registry} {e : Event} {r : Nat}

/-! ## From the body to the configuration -/

/-- A configuration that a body leads to. -/
def Configured (arch : Arch) (request : CreateBreakpointRequest) (config : WatchConfig) : Prop :=
  ∃ typeLen value map filter, watchpointType request = .ok typeLen ∧
    parsedFilter arch request = .ok filter ∧
      config = watchConfig request typeLen (resolvedAddress request value map) filter

/-- What the job of a create has of its body. -/
def OfRequest (arch : Arch) (request : CreateBreakpointRequest) : CreatePhase → Prop
  | .idle => False
  | .admitted request' => request' = request
  | .resolving request' typeLen => request' = request ∧ watchpointType request = .ok typeLen
  | .filtering request' typeLen resolved =>
      request' = request ∧ watchpointType request = .ok typeLen ∧
        ∃ value map, resolved = resolvedAddress request value map
  | .numbering config _ => Configured arch request config
  | .launching _ | .locking _ | .inserting _ | .done _ => True

/-- A create on its way from its body to its watch. -/
structure Serves (arch : Arch) (request : CreateBreakpointRequest) (c : Create) : Prop where
  phase : OfRequest arch request c.phase
  launched : ∀ l, c.launched = some l → Configured arch request l.config

/-- A create that was not admitted has no watch; one that was serves its body. -/
def Requested (arch : Arch) (es : List Event) (r : Nat) (c : Create) : Prop :=
  (c.phase = .idle ∧ c.launched = none) ∨
    ∃ request, .admitted r request ∈ es ∧ Serves arch request c

section

variable {c : Create} {request : CreateBreakpointRequest}

theorem Requested.snoc (h : Requested arch es r c) (e : Event) :
    Requested arch (es ++ [e]) r c := by
  rcases h with hidle | ⟨request, hmem, hserves⟩
  · exact .inl hidle
  · exact .inr ⟨request, List.mem_append_left _ hmem, hserves⟩

/-- The answer changes nothing. -/
theorem Requested.answer (h : Requested arch es r c) (reply : Option Reply) :
    Requested arch es r { c with reply } := by
  rcases h with hidle | ⟨request, hmem, hserves⟩
  · exact .inl hidle
  · exact .inr ⟨request, hmem, hserves.phase, hserves.launched⟩

theorem Requested.serves (h : Requested arch es r c) (hp : c.phase ≠ .idle) :
    ∃ request, .admitted r request ∈ es ∧ Serves arch request c :=
  h.resolve_left fun hidle ↦ hp hidle.1

theorem Requested.unlaunched (h : Requested arch es r c) (hp : c.phase = .idle) :
    c.launched = none := by
  rcases h with ⟨-, hnone⟩ | ⟨request, -, hserves⟩
  · exact hnone
  · have hphase := hserves.phase
    rw [hp] at hphase
    exact hphase.elim

/-- The job goes on. -/
theorem Requested.advance (h : Requested arch es r c) (hp : c.phase ≠ .idle) {phase : CreatePhase}
    (hphase : ∀ request, OfRequest arch request c.phase → OfRequest arch request phase) :
    Requested arch es r { c with phase } := by
  obtain ⟨request, hmem, hserves⟩ := h.serves hp
  exact .inr ⟨request, hmem, hphase _ hserves.phase, hserves.launched⟩

/-- The watch acts, and the job may go on. -/
theorem Requested.watch (h : Requested arch es r c) {l : Launched} (hl : c.launched = some l)
    {phase : CreatePhase} {w : Watch.State}
    (hphase : ∀ request, OfRequest arch request c.phase → OfRequest arch request phase) :
    Requested arch es r { c with phase, launched := some { l with watch := w } } := by
  rcases h with ⟨-, hnone⟩ | ⟨request, hmem, hserves⟩
  · rw [hl] at hnone
    cases hnone
  · refine .inr ⟨request, hmem, hphase _ hserves.phase, ?_⟩
    rintro _ ⟨⟩
    exact hserves.launched l hl

end

/-- **The step lemma.** -/
theorem requested_step (h : ∀ r, Requested arch es r (s.creates r)) (hstep : Step arch s e t) :
    ∀ r, Requested arch (es ++ [e]) r (t.creates r) := by
  have hsame : ∀ r, Requested arch (es ++ [e]) r (s.creates r) := fun r ↦ (h r).snoc e
  cases hstep with
  | @accept r request hp =>
      refine Registry.forall_setCreate _ _ _ (.inr ⟨request, by simp, rfl, ?_⟩) hsame
      rintro l hl
      have hnone : (s.creates r).launched = none := (h r).unlaunched hp
      cases hl.symm.trans hnone
  | refuse | timeOut | answerError | answerCreated =>
      exact Registry.forall_setCreate _ _ _ ((hsame _).answer _) hsame
  | checkType hp htype =>
      refine Registry.forall_setCreate _ _ _ ((hsame _).advance (by simp [hp]) ?_) hsame
      rw [hp]
      rintro _ rfl
      exact ⟨rfl, htype⟩
  | checkTypeError hp | resolveError hp | parseFilterError hp =>
      exact Registry.forall_setCreate _ _ _
        ((hsame _).advance (by simp [hp]) fun _ _ ↦ trivial) hsame
  | resolve hp =>
      refine Registry.forall_setCreate _ _ _ ((hsame _).advance (by simp [hp]) ?_) hsame
      rw [hp]
      rintro _ ⟨rfl, htype⟩
      exact ⟨rfl, htype, _, _, rfl⟩
  | parseFilter hp hfilter =>
      refine Registry.forall_setCreate _ _ _ ((hsame _).advance (by simp [hp]) ?_) hsame
      rw [hp]
      rintro _ ⟨rfl, htype, value, map, rfl⟩
      exact ⟨_, value, map, _, htype, hfilter, rfl⟩
  | @number r config resolved hp =>
      refine Registry.forall_setCreate _ _ _ ?_ hsame
      obtain ⟨request, hmem, hserves⟩ := (hsame r).serves (by simp [hp])
      refine .inr ⟨request, hmem, trivial, ?_⟩
      rintro _ ⟨⟩
      have hconfigured := hserves.phase
      rwa [hp] at hconfigured
  | watch hl => exact Registry.forall_setCreate _ _ _ ((hsame _).watch hl fun _ ↦ id) hsame
  | launchFailed hl | launched hl =>
      exact Registry.forall_setCreate _ _ _ ((hsame _).watch hl fun _ _ ↦ trivial) hsame
  | lockInsert hp | insert hp =>
      exact Registry.forall_setCreate _ _ _
        ((hsame _).advance (by simp [hp]) fun _ _ ↦ trivial) hsame
  | stop _ hl =>
      exact Registry.forall_setCreate _ _ _ ((hsame _).watch hl fun _ ↦ id) hsame
  | lockDelete | deleteBusy | remove | miss | noContent | notFound | lockList | listBusy | list =>
      exact hsame

/-- **A watch is what its body asks for.** -/
theorem requested (hrun : Run (Step arch) Registry.initial es s) (r : Nat) :
    Requested arch es r (s.creates r) := by
  induction hrun generalizing r with
  | nil => exact .inl ⟨rfl, rfl⟩
  | snoc _ hstep ih => exact requested_step ih hstep r

end Pwatch.Server

namespace Pwatch.Server.System

open Watch

variable {ρ : Type} [DecidableEq ρ] {arch : Arch} {limit : Nat} {es : List (Event ρ)}
  {s t : System ρ} {r : Nat} {l : Launched}

/-! ## From the configuration to the driver -/

/-- A creation that a watch has seen the driver has seen. -/
theorem created_mem (hrun : Run (Step arch limit) s es t) {call : CreateCall} {id : Int32}
    (h : .created call id ∈ watchEvents r (registryEvents es)) : .created r call id ∈ es := by
  obtain ⟨ws, hws, hwe⟩ := List.mem_filterMap.mp h
  obtain ⟨e, he, hof⟩ := List.mem_filterMap.mp hws
  obtain rfl : ws = .watch r (.created call id) := by
    cases ws <;> simp [Server.Event.watchEvent] at hwe
    rw [hwe.1, hwe.2]
  obtain ⟨before, after, rfl⟩ := List.append_of_mem he
  obtain ⟨u, u', -, hstep, -⟩ := hrun.split_event
  cases hstep with
  | registry _ hapart =>
      obtain rfl := Option.some.inj hof
      exact absurd rfl (hapart.not_created r call id)
  | create =>
      cases hof
      exact he
  | poll | remove | removeFailed | accept | reject | drop | hitServer => cases hof

/-- **What is polled was created for the body.** -/
theorem exists_created_of_polled (hrun : Run (Step arch limit) initial es s)
    (hl : (s.registry.creates r).launched = some l) {id : Int32} {hits : List Driver.Hit}
    {calls : List SampleData} (hpolled : .polled r id hits calls ∈ es) :
    ∃ tid, .created r (l.config.createCall tid) id ∈ es := by
  have hid : id ∈ createdIds (watchEvents r (registryEvents es)) := by
    obtain ⟨before, after, rfl⟩ := List.append_of_mem hpolled
    obtain ⟨u, u', hu, hstep, -⟩ := hrun.split_event
    obtain ⟨l', w, -, hw, hhistory⟩ :=
      hstep.registry_takes.of_some.watch_step (creates_of_run hu) (r := r) (if_pos rfl)
    have hbefore := hw.mem_createdIds_of_outcome hhistory rfl
    rw [registryEvents_append, watchEvents, List.filterMap_append, createdIds,
      List.filterMap_append]
    exact List.mem_append_left _ hbefore
  obtain ⟨tid, hcreated⟩ := exists_created (((creates_of_run hrun).create r).watch_run l hl) hid
  exact ⟨tid, created_mem hrun hcreated⟩

end Pwatch.Server.System
