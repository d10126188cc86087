import Pwatch.Server.Breakpoints

/-!
# What became of a create

The history of the server from the side of one create: the actions of its watch are a
run of that watch alone (`CreateHistory.watch_run`), its answer is the last word on its
job or says that there is none, and an entry of the registry belongs to a create that is
done.
-/

namespace Pwatch.Server

variable {arch : Arch} {es : List Event} {e : Event} {s t : Registry} {r : Nat}

/-! ## The history of one watch -/

/-- The action of the watch of a create at an event. -/
def Event.watchEvent (r : Nat) : Event → Option Watch.Event
  | .watch r' e => if r' = r then some e else none
  | .stopped _ r' => if r' = r then some .stop else none
  | _ => none

/-- The actions of the watch of a create, in order. -/
def watchEvents (r : Nat) (es : List Event) : List Watch.Event :=
  es.filterMap (Event.watchEvent r)

theorem watchEvents_snoc (r : Nat) (es : List Event) (e : Event) :
    watchEvents r (es ++ [e]) = watchEvents r es ++ (e.watchEvent r).toList :=
  filterMap_snoc _ es e

/-- Most events are no action of this watch. -/
theorem watchEvents_snoc_of_none (he : e.watchEvent r = none) :
    watchEvents r (es ++ [e]) = watchEvents r es := by
  rw [watchEvents_snoc, he, Option.toList_none, List.append_nil]

/-! ## The invariant of a create -/

/-- `fetch_add` is still to come. -/
def CreatePhase.Pending : CreatePhase → Prop
  | .idle | .admitted _ | .resolving _ _ | .filtering _ _ _ | .numbering _ _ => True
  | _ => False

/-- The job is running. -/
def CreatePhase.Busy : CreatePhase → Prop
  | .idle | .done _ => False
  | _ => True

/-- `start_watch` has returned a watch. -/
def CreatePhase.Watching : CreatePhase → Prop
  | .locking _ | .inserting _ | .done (.ok _) => True
  | _ => False

/-- What an answer says about the job. -/
def ReplyOk (phase : CreatePhase) : Option Reply → Prop
  | none | some (.error .timedOut) => True
  | some (.error .exhausted) => phase = .idle
  | some (.error (.panicked _)) => False
  | some (.error (.job message)) => phase = .done (.error message)
  | some (.created view) => phase = .done (.ok view)

/-- A create and the history of its watch. -/
structure CreateHistory (es : List Watch.Event) (c : Create) : Prop where
  unlaunched : c.launched = none → es = []
  watch_run : ∀ l, c.launched = some l → Run (Watch.Step l.config) .initial es l.watch
  pending : c.phase.Pending → c.launched = none
  failed : ∀ message l, c.phase = .done (.error message) → c.launched = some l →
    l.watch.phase = .failed
  started : c.phase.Watching → ∃ l, c.launched = some l ∧ l.watch.phase.Started
  reply_ok : ReplyOk c.phase c.reply

theorem createHistory_initial : CreateHistory [] ⟨.idle, none, none⟩ :=
  ⟨fun _ ↦ rfl, by simp, fun _ ↦ rfl, by simp, False.elim, trivial⟩

/-- While a job is running its create is unanswered or has timed out. -/
theorem ReplyOk.of_busy {phase : CreatePhase} {reply : Option Reply} (h : ReplyOk phase reply)
    (hp : phase.Busy) (phase' : CreatePhase) : ReplyOk phase' reply := by
  unfold ReplyOk at h
  split at h
  · trivial
  · trivial
  · subst h
    cases hp
  · exact h.elim
  all_goals
    subst h
    cases hp

section

variable {ws : List Watch.Event} {we : Watch.Event} {c : Create} {l : Launched} {w : Watch.State}

/-- The job goes on without its watch. -/
theorem CreateHistory.advance (h : CreateHistory ws c) (hp : c.phase.Busy) {phase : CreatePhase}
    (hpending : phase.Pending → c.phase.Pending)
    (herror : ∀ message, phase = .done (.error message) → c.phase.Pending)
    (hwatching : phase.Watching → c.phase.Watching) :
    CreateHistory ws { c with phase } where
  unlaunched := h.unlaunched
  watch_run := h.watch_run
  pending hphase := h.pending (hpending hphase)
  failed message l hphase hl := by
    rw [h.pending (herror message hphase)] at hl
    cases hl
  started hphase := h.started (hwatching hphase)
  reply_ok := h.reply_ok.of_busy hp phase

/-- The answer. -/
theorem CreateHistory.answer (h : CreateHistory ws c) {reply : Reply}
    (hreply : ReplyOk c.phase (some reply)) :
    CreateHistory ws { c with reply := some reply } :=
  { h with reply_ok := hreply }

/-- One more action of the watch. -/
theorem CreateHistory.watch (h : CreateHistory ws c) (hl : c.launched = some l)
    (hw : Watch.Step l.config l.watch we w) {phase : CreatePhase} (hphase : ¬ phase.Pending)
    (hfailed : ∀ message, phase = .done (.error message) → w.phase = .failed)
    (hstarted : phase.Watching → w.phase.Started) (hreply : ReplyOk phase c.reply) :
    CreateHistory (ws ++ [we]) { c with phase, launched := some { l with watch := w } } where
  unlaunched hnone := by cases hnone
  watch_run := by
    rintro _ ⟨⟩
    exact (h.watch_run l hl).snoc hw
  pending hp := absurd hp hphase
  failed := by
    rintro message _ hp ⟨⟩
    exact hfailed message hp
  started hp := ⟨_, rfl, hstarted hp⟩
  reply_ok := hreply

/-- A watch that acts has not been given up by its job. -/
theorem CreateHistory.phase_ne_error (h : CreateHistory ws c) (hl : c.launched = some l)
    (hw : Watch.Step l.config l.watch we w) (message : Str) :
    c.phase ≠ .done (.error message) :=
  fun hp ↦ hw.phase_ne_failed (h.failed message l hp hl)

/-- The watch acts on its own. -/
theorem CreateHistory.watch_alone (h : CreateHistory ws c) (hl : c.launched = some l)
    (hw : Watch.Step l.config l.watch we w) :
    CreateHistory (ws ++ [we]) { c with launched := some { l with watch := w } } := by
  have hpending : ¬ c.phase.Pending := fun hp ↦ by
    rw [h.pending hp] at hl
    cases hl
  have hstarted : c.phase.Watching → w.phase.Started := by
    intro hp
    obtain ⟨l', hl', hs⟩ := h.started hp
    cases hl.symm.trans hl'
    exact hw.started hs
  exact h.watch hl hw hpending (fun message hp ↦ absurd hp (h.phase_ne_error hl hw message))
    hstarted h.reply_ok

end

/-! ## The invariant of all creates -/

/-- **The invariant of the creates.** -/
structure Creates (es : List Event) (s : Registry) : Prop where
  create : ∀ r, CreateHistory (watchEvents r es) (s.creates r)
  view_id : ∀ id entry, s.breakpoints.lookup id = some entry → entry.view.id = id
  entry_done : ∀ id entry, s.breakpoints.lookup id = some entry →
    (s.creates entry.watch).phase = .done (.ok entry.view)

theorem creates_initial : Creates [] Registry.initial where
  create _ := createHistory_initial
  view_id := by simp [Registry.initial]
  entry_done := by simp [Registry.initial]

/-- A step of one create, with the same entries. -/
theorem Creates.setCreate (h : Creates es s) {c : Create}
    (he : ∀ r', r' ≠ r → e.watchEvent r' = none)
    (hc : CreateHistory (watchEvents r es ++ (e.watchEvent r).toList) c)
    (hdone : ∀ view, (s.creates r).phase = .done (.ok view) → c.phase = .done (.ok view)) :
    Creates (es ++ [e]) (s.setCreate r c) where
  create r' := by
    by_cases hr : r' = r
    · rw [hr, Registry.setCreate_creates_self, watchEvents_snoc]
      exact hc
    · rw [Registry.setCreate_creates_of_ne _ _ _ hr, watchEvents_snoc_of_none (he r' hr)]
      exact h.create r'
  view_id := h.view_id
  entry_done id entry hentry := by
    have hphase := h.entry_done id entry hentry
    by_cases hr : entry.watch = r
    · rw [hr] at hphase ⊢
      rw [Registry.setCreate_creates_self]
      exact hdone _ hphase
    · rw [Registry.setCreate_creates_of_ne _ _ _ hr]
      exact hphase

/-- A step of the job of a create. -/
theorem Creates.job (h : Creates es s) {c : Create} (he : ∀ r', e.watchEvent r' = none)
    (hbusy : ¬ ∃ result, (s.creates r).phase = .done result)
    (hc : CreateHistory (watchEvents r es) c) : Creates (es ++ [e]) (s.setCreate r c) := by
  refine h.setCreate (fun r' _ ↦ he r') ?_ fun view hp ↦ absurd ⟨_, hp⟩ hbusy
  rw [he r, Option.toList_none, List.append_nil]
  exact hc

/-- A step that answers a create. -/
theorem Creates.answer (h : Creates es s) {reply : Reply}
    (hreply : ReplyOk (s.creates r).phase (some reply)) :
    Creates (es ++ [.answered r reply])
      (s.setCreate r { s.creates r with reply := some reply }) := by
  refine h.setCreate (fun _ _ ↦ rfl) ?_ fun _ hp ↦ hp
  rw [show (Event.answered r reply).watchEvent r = none from rfl, Option.toList_none,
    List.append_nil]
  exact (h.create r).answer hreply

/-- A step that concerns no create. -/
theorem Creates.other (h : Creates es s) (he : ∀ r', e.watchEvent r' = none)
    (hcreates : t.creates = s.creates) (hentries : ∀ id entry,
      t.breakpoints.lookup id = some entry → s.breakpoints.lookup id = some entry) :
    Creates (es ++ [e]) t where
  create r' := by
    rw [hcreates, watchEvents_snoc_of_none (he r')]
    exact h.create r'
  view_id id entry hentry := h.view_id id entry (hentries id entry hentry)
  entry_done id entry hentry := hcreates ▸ h.entry_done id entry (hentries id entry hentry)

theorem lookup_of_lookup_erase {α β : Type*} [DecidableEq α] {m : AList fun _ : α ↦ β} {a a' : α}
    {b : β} (h : (m.erase a).lookup a' = some b) : m.lookup a' = some b := by
  have hne : a' ≠ a := by
    rintro rfl
    rw [AList.lookup_erase] at h
    cases h
  rwa [AList.lookup_erase_ne hne] at h

theorem watchEvent_watch (we : Watch.Event) :
    ∀ r', r' ≠ r → (Event.watch r we).watchEvent r' = none :=
  fun _ hr ↦ if_neg hr.symm

/-- **The step lemma.** -/
theorem Creates.step (h : Creates es s) (hstep : Step arch s e t) : Creates (es ++ [e]) t := by
  cases hstep with
  | @accept r request hp hr =>
      have hc : CreateHistory (watchEvents r es) { s.creates r with phase := .admitted request } :=
        { h.create r with
          pending := fun _ ↦ (h.create r).pending (by rw [hp]; trivial)
          failed := by simp
          started := False.elim
          reply_ok := by
            rw [hr]
            trivial }
      exact h.job (fun _ ↦ rfl) (by simp [hp]) hc
  | refuse hp hr => exact h.answer hp
  | timeOut hp hr => exact h.answer trivial
  | answerError hp hr | answerCreated hp hr => exact h.answer hp
  | @checkType r _ _ hp _ | @checkTypeError r _ _ hp _ | @resolve r _ _ _ _ hp
  | @resolveError r _ _ _ hp | @parseFilter r _ _ _ _ hp _ | @parseFilterError r _ _ _ _ hp _ =>
      have hpending : (s.creates r).phase.Pending := by rw [hp]; trivial
      refine h.job (fun _ ↦ rfl) (by simp [hp]) ?_
      exact (h.create r).advance (by rw [hp]; trivial) (fun _ ↦ hpending) (fun _ _ ↦ hpending)
        False.elim
  | @number r config resolved hp =>
      have hnone : (s.creates r).launched = none :=
        (h.create r).pending (by rw [hp]; trivial)
      have hc : CreateHistory (watchEvents r es) { s.creates r with
          phase := .launching resolved
          launched := some ⟨s.nextBreakpointId, config, .initial⟩ } :=
        { unlaunched := by simp
          watch_run := by
            rintro _ ⟨⟩
            rw [(h.create r).unlaunched hnone]
            exact .nil
          pending := fun hp' ↦ hp'.elim
          failed := by simp
          started := False.elim
          reply_ok := (h.create r).reply_ok.of_busy (by rw [hp]; trivial) _ }
      have hbase : Creates es { s with nextBreakpointId := s.nextBreakpointId + 1 } := { h with }
      exact hbase.job (fun _ ↦ rfl) (by simp [hp]) hc
  | @watch r l e' w hl hw hquiet =>
      refine h.setCreate (watchEvent_watch e') ?_ fun _ hp ↦ hp
      rw [Event.watchEvent, if_pos rfl]
      exact (h.create r).watch_alone hl hw
  | @launchFailed r l resolved message w hl hp hw =>
      have hfailed : w.phase = .failed := by
        cases hw <;> rfl
      refine h.setCreate (watchEvent_watch _) ?_ (by simp [hp])
      rw [Event.watchEvent, if_pos rfl]
      exact (h.create r).watch hl hw id (fun _ _ ↦ hfailed) False.elim
        ((h.create r).reply_ok.of_busy (by rw [hp]; trivial) _)
  | @launched r l resolved w createdAtMs hl hp hw =>
      have hstarted : w.phase.Started := by
        cases hw
        trivial
      refine h.setCreate (watchEvent_watch _) ?_ (by simp [hp])
      rw [Event.watchEvent, if_pos rfl]
      exact (h.create r).watch hl hw id (by simp) (fun _ ↦ hstarted)
        ((h.create r).reply_ok.of_busy (by rw [hp]; trivial) _)
  | @lockInsert r view hp hfree =>
      have hbase : Creates es { s with lock := .create r } := { h with }
      refine hbase.job (fun _ ↦ rfl) (by simp [hp]) ?_
      have hwatching : (s.creates r).phase.Watching := by rw [hp]; trivial
      exact (h.create r).advance (by rw [hp]; trivial) False.elim (by simp) fun _ ↦ hwatching
  | @insert r view hp hlock =>
      have hc : CreateHistory (watchEvents r es) { s.creates r with phase := .done (.ok view) } :=
        (h.create r).advance (by rw [hp]; trivial) False.elim (by simp) fun _ ↦ by
          rw [hp]
          trivial
      have hjob : Creates (es ++ [.inserted r view.id (s.breakpoints.lookup view.id)])
          (s.setCreate r { s.creates r with phase := .done (.ok view) }) :=
        h.job (fun _ ↦ rfl) (by simp [hp]) hc
      have hcases : ∀ id entry, (s.breakpoints.insert view.id ⟨view, r⟩).lookup id = some entry →
          id = view.id ∧ entry = ⟨view, r⟩ ∨ s.breakpoints.lookup id = some entry := by
        intro id entry hentry
        by_cases hid : id = view.id
        · rw [hid, AList.lookup_insert] at hentry
          exact .inl ⟨hid, (Option.some.inj hentry).symm⟩
        · exact .inr (AList.lookup_insert_ne hid ▸ hentry)
      exact {
        create := hjob.create
        view_id := fun id entry hentry ↦ by
          rcases hcases id entry hentry with ⟨rfl, rfl⟩ | hold
          · rfl
          · exact h.view_id id entry hold
        entry_done := fun id entry hentry ↦ by
          rcases hcases id entry hentry with ⟨rfl, rfl⟩ | hold
          · rw [Registry.setCreate_creates_self]
          · exact hjob.entry_done id entry hold }
  | remove hlock hentry =>
      exact h.other (fun _ ↦ rfl) rfl fun _ _ hlookup ↦ lookup_of_lookup_erase hlookup
  | @stop d r id l w hd hl hw =>
      have hc := (h.create r).watch_alone hl hw
      have hset : Creates (es ++ [.stopped d r])
          (s.setCreate r { s.creates r with launched := some { l with watch := w } }) := by
        refine h.setCreate (fun _ hr ↦ if_neg hr.symm) ?_ fun _ hp ↦ hp
        rw [Event.watchEvent, if_pos rfl]
        exact hc
      exact { hset with }
  | lockDelete | deleteBusy | miss | noContent | notFound | lockList | listBusy | list =>
      exact h.other (fun _ ↦ rfl) rfl fun _ _ hlookup ↦ hlookup

/-- **The run lemma.** -/
theorem creates (hrun : Run (Step arch) Registry.initial es s) : Creates es s :=
  hrun.invariant creates_initial fun _ _ _ _ _ h hstep ↦ h.step hstep

/-! ## One create in a step -/

/-- What a step does to one create: the action of its watch, if there is one, and the create
that it leaves. -/
inductive CreateStep (c : Create) : Option Watch.Event → Create → Prop
  | same : CreateStep c none c
  | accept {request : CreateBreakpointRequest} :
      c.phase = .idle → c.reply = none → CreateStep c none { c with phase := .admitted request }
  | answer {reply : Reply} : c.reply = none → CreateStep c none { c with reply := some reply }
  | /-- The job goes on, or comes to an error, before `fetch_add`. -/
    check {phase : CreatePhase} :
      c.phase.Pending → c.phase.Busy → phase.Pending ∨ (∃ message, phase = .done (.error message)) →
      CreateStep c none { c with phase }
  | number {id : UInt64} {config : Watch.WatchConfig} {resolved : Maps.ResolvedAddress} :
      c.phase = .numbering config resolved →
      CreateStep c none
        { c with phase := .launching resolved, launched := some ⟨id, config, .initial⟩ }
  | watch {l : Launched} {e : Watch.Event} {w : Watch.State} :
      c.launched = some l → Watch.Step l.config l.watch e w →
      CreateStep c (some e) { c with launched := some { l with watch := w } }
  | launchFailed {l : Launched} {resolved : Maps.ResolvedAddress} {message : Str}
      {w : Watch.State} :
      c.launched = some l → c.phase = .launching resolved →
      Watch.Step l.config l.watch (.failed message) w →
      CreateStep c (some (.failed message))
        { c with phase := .done (.error message), launched := some { l with watch := w } }
  | launched {l : Launched} {resolved : Maps.ResolvedAddress} {w : Watch.State}
      {createdAtMs : Nat} :
      c.launched = some l → c.phase = .launching resolved →
      Watch.Step l.config l.watch .started w →
      CreateStep c (some .started) { c with
        phase := .locking (newView l.id l.config resolved w.tids createdAtMs)
        launched := some { l with watch := w } }
  | lockInsert {view : BreakpointView} :
      c.phase = .locking view → CreateStep c none { c with phase := .inserting view }
  | insert {view : BreakpointView} :
      c.phase = .inserting view → CreateStep c none { c with phase := .done (.ok view) }

/-- **The inversion lemma** for one create. -/
theorem Step.create (h : Step arch s e t) (r : Nat) :
    CreateStep (s.creates r) (e.watchEvent r) (t.creates r) := by
  -- the create that the step writes, and every other one
  have hset : ∀ {s' : Registry} {r' : Nat} {c : Create}, s'.creates = s.creates →
      (r' ≠ r → e.watchEvent r = none) →
      (r' = r → CreateStep (s.creates r) (e.watchEvent r) c) →
        CreateStep (s.creates r) (e.watchEvent r) ((s'.setCreate r' c).creates r) := by
    intro s' r' c hs hother hself
    by_cases hr : r' = r
    · subst hr
      rw [Registry.setCreate_creates_self]
      exact hself rfl
    · rw [Registry.setCreate_creates_of_ne _ _ _ (Ne.symm hr), hs, hother hr]
      exact .same
  cases h with
  | accept hp hr =>
      refine hset rfl (fun _ ↦ rfl) ?_
      rintro rfl
      exact .accept hp hr
  | refuse _ hr | timeOut _ hr | answerError _ hr | answerCreated _ hr =>
      refine hset rfl (fun _ ↦ rfl) ?_
      rintro rfl
      exact .answer hr
  | checkType hp _ | resolve hp | parseFilter hp _ =>
      refine hset rfl (fun _ ↦ rfl) ?_
      rintro rfl
      exact .check (by rw [hp]; trivial) (by rw [hp]; trivial) (.inl trivial)
  | checkTypeError hp _ | resolveError hp | parseFilterError hp _ =>
      refine hset rfl (fun _ ↦ rfl) ?_
      rintro rfl
      exact .check (by rw [hp]; trivial) (by rw [hp]; trivial) (.inr ⟨_, rfl⟩)
  | number hp =>
      refine hset rfl (fun _ ↦ rfl) ?_
      rintro rfl
      exact .number hp
  | watch hl hw _ =>
      refine hset rfl (fun hr ↦ if_neg hr) ?_
      rintro rfl
      rw [Event.watchEvent, if_pos rfl]
      exact .watch hl hw
  | launchFailed hl hp hw =>
      refine hset rfl (fun hr ↦ if_neg hr) ?_
      rintro rfl
      rw [Event.watchEvent, if_pos rfl]
      exact .launchFailed hl hp hw
  | launched hl hp hw =>
      refine hset rfl (fun hr ↦ if_neg hr) ?_
      rintro rfl
      rw [Event.watchEvent, if_pos rfl]
      exact .launched hl hp hw
  | lockInsert hp _ =>
      refine hset rfl (fun _ ↦ rfl) ?_
      rintro rfl
      exact .lockInsert hp
  | insert hp _ =>
      refine hset rfl (fun _ ↦ rfl) ?_
      rintro rfl
      exact .insert hp
  | stop _ hl hw =>
      refine hset rfl (fun hr ↦ if_neg hr) ?_
      rintro rfl
      rw [Event.watchEvent, if_pos rfl]
      exact .watch hl hw
  | lockDelete | deleteBusy | remove | miss | noContent | notFound | lockList | listBusy | list =>
      exact .same

section

variable {we : Option Watch.Event} {c c' : Create}

/-- An answer stays. -/
theorem CreateStep.reply_eq (h : CreateStep c we c') {reply : Reply}
    (hreply : c.reply = some reply) : c'.reply = some reply := by
  cases h with
  | accept _ hr | answer hr =>
      rw [hr] at hreply
      cases hreply
  | _ => exact hreply

/-- A finished job stays finished. -/
theorem CreateStep.phase_eq_done (h : CreateStep c we c') {result : Except Str BreakpointView}
    (hp : c.phase = .done result) : c'.phase = .done result := by
  cases h with
  | same | answer | watch => exact hp
  | check hpending hbusy =>
      rw [hp] at hbusy
      exact hbusy.elim
  | accept hq | number hq | launchFailed _ hq | launched _ hq | lockInsert hq | insert hq =>
      rw [hp] at hq
      cases hq

/-- A watch is new, or it was there and has acted or not. -/
theorem CreateStep.launched_cases (h : CreateStep c we c') {l : Launched}
    (hl : c'.launched = some l) :
    c.launched = some l ∨ l.watch = .initial ∨
      ∃ l₀ e, c.launched = some l₀ ∧ we = some e ∧ Watch.Step l₀.config l₀.watch e l.watch := by
  cases h with
  | same | accept | answer | check | lockInsert | insert => exact .inl hl
  | number hp => exact .inr (.inl (by rw [← Option.some.inj hl]))
  | watch hl₀ hw | launchFailed hl₀ _ hw | launched hl₀ _ hw =>
      rw [← Option.some.inj hl]
      exact .inr (.inr ⟨_, _, hl₀, rfl, hw⟩)

end

/-! ## Answers -/

/-- A create is answered as its state says. -/
theorem reply_of_answered (hrun : Run (Step arch) Registry.initial es s) {reply : Reply}
    (hanswered : .answered r reply ∈ es) : (s.creates r).reply = some reply := by
  induction hrun with
  | nil => cases hanswered
  | @snoc es s t e hrun hstep ih =>
      rcases List.mem_append.mp hanswered with hbefore | hlast
      · exact (hstep.create r).reply_eq (ih hbefore)
      · rw [← List.mem_singleton.mp hlast] at hstep
        cases hstep <;> rw [Registry.setCreate_creates_self]

end Pwatch.Server
