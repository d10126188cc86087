import Pwatch.Cli.Args
import Pwatch.Runs.Parts
import Pwatch.Server.Progress
import Pwatch.Watch.Lifecycle

/-!
# The process

`main` of `src/main.rs` when it watches: `run_watch` and the end of the process.
`RunningWatch::stop` does not wait for the thread of the watch, so whether the thread gets to
remove its breakpoints is decided by the runtime, which is dropped behind `main`: it waits for a
blocking task that has started, here the `join` of the thread, and drops one that has not.
-/

namespace Pwatch.Cli

open Watch

/-! ## The process -/

/-- Where `main` stands. -/
inductive Main
  | /-- Before `start_watch`. -/
    checking
  | /-- In `start_watch`. -/
    starting
  | /-- In `pending`, or in `sleep`. -/
    waiting
  | /-- `main` has returned, and the runtime is dropped. -/
    returned (result : Except Filter.Failure Unit)
  | exited (result : Except Filter.Failure Unit)

/-- The blocking task that joins the thread of the watch. -/
inductive Join
  | /-- Not spawned. -/
    unborn
  | queued
  | running
  | done
deriving DecidableEq, Repr

structure Process where
  watch : Watch.State
  main : Main
  join : Join
  /-- The breakpoints that the driver keeps for the process. -/
  installed : List Int32

namespace Process

def initial : Process where
  watch := .initial
  main := .checking
  join := .unborn
  installed := []

inductive Event
  | /-- `main` returns before `start_watch`. -/
    refused (failure : Filter.Failure)
  | checked
  | watch (e : Watch.Event)
  | /-- `Driver::remove` has returned, with or without an error. -/
    removed (id : Int32) (done : Bool)
  | /-- A thread of the runtime takes up the `join`. -/
    joining
  | joined
  | /-- `sleep` is over, and `stop` is called. -/
    timeUp
  | exited

/-- The action of the watch. -/
@[simp] def Event.ofWatch : Event → Option Watch.Event
  | .watch e => some e
  | .removed id _ => some (.removed id)
  | .timeUp => some .stop
  | .refused _ | .checked | .joining | .joined | .exited => none

variable (arch : Arch) (args : Args)

inductive Step : Process → Event → Process → Prop
  | refuseArgs {s : Process} {message : Str} :
      s.main = .checking → args.intoMode = .error message →
      Step s (.refused (.bail message)) { s with main := .returned (.error (.bail message)) }
  | refuse {s : Process} {command : WatchCommand} {failure : Filter.Failure} :
      s.main = .checking → args.intoMode = .ok (.watch command) →
      watchConfig arch command = .error failure →
      Step s (.refused failure) { s with main := .returned (.error failure) }
  | check {s : Process} {command : WatchCommand} {config : WatchConfig} :
      s.main = .checking → Prepared arch args command config →
      Step s .checked { s with main := .starting }
  | launch {s : Process} {command : WatchCommand} {config : WatchConfig} {e : Watch.Event}
      {w : Watch.State} :
      s.main = .starting → Prepared arch args command config → Watch.Step config s.watch e w →
      e ≠ .stop → e ≠ .started → (∀ message, e ≠ .failed message) →
      (∀ call id, e ≠ .created call id) → Step s (.watch e) { s with watch := w }
  | /-- The driver gives an id that it does not use. -/
    create {s : Process} {command : WatchCommand} {config : WatchConfig} {call : CreateCall}
      {id : Int32} {w : Watch.State} :
      s.main = .starting → Prepared arch args command config →
      Watch.Step config s.watch (.created call id) w → id ∉ s.installed →
      Step s (.watch (.created call id)) { s with watch := w, installed := s.installed ++ [id] }
  | launched {s : Process} {command : WatchCommand} {config : WatchConfig} {w : Watch.State} :
      s.main = .starting → Prepared arch args command config →
      Watch.Step config s.watch .started w →
      Step s (.watch .started) { s with watch := w, main := .waiting, join := .queued }
  | launchFailed {s : Process} {command : WatchCommand} {config : WatchConfig} {message : Str}
      {w : Watch.State} :
      s.main = .starting → Prepared arch args command config →
      Watch.Step config s.watch (.failed message) w →
      Step s (.watch (.failed message))
        { s with watch := w, main := .returned (startFailed message) }
  | /-- The thread of the watch goes on while the process is there. -/
    thread {s : Process} {command : WatchCommand} {config : WatchConfig} {e : Watch.Event}
      {w : Watch.State} :
      s.main = .waiting ∨ (∃ result, s.main = .returned result) → s.watch.phase.Started →
      Prepared arch args command config → Watch.Step config s.watch e w → e ≠ .stop →
      (∀ id, e ≠ .removed id) → Step s (.watch e) { s with watch := w }
  | /-- The thread drops what `remove` returns. -/
    remove {s : Process} {command : WatchCommand} {config : WatchConfig} {id : Int32} {done : Bool}
      {w : Watch.State} :
      s.main = .waiting ∨ (∃ result, s.main = .returned result) → s.watch.phase.Started →
      Prepared arch args command config → Watch.Step config s.watch (.removed id) w →
      Step s (.removed id done)
        { s with watch := w, installed := if done then s.installed.erase id else s.installed }
  | joining {s : Process} :
      s.main = .waiting ∨ (∃ result, s.main = .returned result) → s.join = .queued →
      Step s .joining { s with join := .running }
  | joined {s : Process} :
      s.join = .running → s.watch.phase = .exited → Step s .joined { s with join := .done }
  | timeUp {s : Process} {command : WatchCommand} {config : WatchConfig} {w : Watch.State} :
      s.main = .waiting → Prepared arch args command config → command.timeout ≠ 0 →
      Watch.Step config s.watch .stop w →
      Step s .timeUp { s with watch := w, main := .returned (.ok ()) }
  | /-- The runtime waits for the task that runs. -/
    exit {s : Process} {result : Except Filter.Failure Unit} :
      s.main = .returned result → s.join ≠ .running →
      Step s .exited { s with main := .exited result }

/-! ## The watch of the process -/

variable {arch args} {command : WatchCommand} {es : List Event} {e : Event} {s t : Process}

/-- What the watch has done. -/
def watchEvents (es : List Event) : List Watch.Event := es.filterMap Event.ofWatch

@[simp] theorem watchEvents_snoc (es : List Event) (e : Event) :
    watchEvents (es ++ [e]) = watchEvents es ++ e.ofWatch.toList :=
  filterMap_snoc _ es e

/-- The watch of a process does what a watch does. -/
theorem Step.takes {config : WatchConfig} (hprepared : Prepared arch args command config)
    (hstep : Step arch args s e t) :
    Takes (Watch.Step config) s.watch e.ofWatch t.watch := by
  cases hstep with
  | refuseArgs | refuse | check | joining | joined | exit => exact .idle
  | launch _ h hw | create _ h hw | launched _ h hw | launchFailed _ h hw | thread _ _ h hw
  | remove _ _ h hw | timeUp _ h _ hw =>
      obtain ⟨-, rfl⟩ := h.unique hprepared
      exact .acts hw

theorem run_watch {config : WatchConfig} (hprepared : Prepared arch args command config)
    (hrun : Run (Step arch args) initial es s) :
    Run (Watch.Step config) .initial (watchEvents es) s.watch :=
  hrun.part fun _ _ _ hstep ↦ hstep.takes hprepared

/-! ## The invariant -/

/-- What is known when `main` has returned: nothing was created, or the watch is told to stop. -/
def Over (args : Args) (es : List Event) (s : Process) (result : Except Filter.Failure Unit) :
    Prop :=
  (s.join = .unborn ∧ ¬ s.watch.phase.Started ∧ createdIds (watchEvents es) = []) ∨
    (s.join ≠ .unborn ∧ s.watch.phase.Started ∧ s.watch.cancel = true ∧ result = .ok () ∧
      ∀ command, args.intoMode = .ok (.watch command) → command.timeout ≠ 0)

/-- What is known where `main` stands. -/
def MainOk (args : Args) (es : List Event) (s : Process) : Main → Prop
  | .checking => s.join = .unborn ∧ s.watch = .initial ∧ createdIds (watchEvents es) = []
  | .starting => s.join = .unborn ∧ ¬ s.watch.phase.Started ∧ s.watch.cancel = false
  | .waiting => s.join ≠ .unborn ∧ s.watch.phase.Started ∧ s.watch.cancel = false
  | .returned result => Over args es s result
  | .exited result => Over args es s result ∧ s.join ≠ .running

/-- **The invariant of a process.** -/
structure Sound (args : Args) (es : List Event) (s : Process) : Prop where
  main : MainOk args es s s.main
  joined : s.join = .done → s.watch.phase = .exited

theorem sound_initial : Sound args [] initial where
  main := ⟨rfl, rfl, rfl⟩
  joined h := by cases h

/-- A thread that is done does nothing more. -/
theorem phase_exited_of_step {config : WatchConfig} {w w' : Watch.State} {e : Watch.Event}
    (h : Watch.Step config w e w') (hp : w.phase = .exited) : w'.phase = .exited := by
  cases h with
  | stop => exact hp
  | opened h | openFailed h | listOne h _ | listAll h _ _ | listFailed h _ | listNone h _
  | create h | createFailed h | createdNone h _ | start h _ | enter h _ | leave h _ | poll h
  | pollFailed h | pass h _ | giveUp h _ | wake h | remove h | exit h => simp [hp] at h

/-- A thread that runs creates nothing. -/
theorem createdIds_of_started {config : WatchConfig} {w w' : Watch.State} {e : Watch.Event}
    (h : Watch.Step config w e w') (hstarted : w.phase.Started) : e.createdId = none := by
  cases h with
  | create hp =>
      rw [hp] at hstarted
      exact hstarted.elim
  | _ => rfl

/-- A watch that is being started removes nothing. -/
theorem removedId_of_not_started {config : WatchConfig} {w w' : Watch.State} {e : Watch.Event}
    (h : Watch.Step config w e w') (hstarted : ¬ w.phase.Started) : e.removedId = none := by
  cases h with
  | remove hp =>
      rw [hp] at hstarted
      exact absurd trivial hstarted
  | _ => rfl

theorem phase_failed_of_step {config : WatchConfig} {w w' : Watch.State} {message : Str}
    (h : Watch.Step config w (.failed message) w') : w'.phase = .failed := by
  cases h with
  | openFailed | listFailed | listNone | createdNone => rfl

/-- A start that fails leaves nothing. -/
theorem createdIds_of_failed {config : WatchConfig} {ws : List Watch.Event} {w w' : Watch.State}
    {message : Str} (hrun : Run (Watch.Step config) .initial ws w)
    (hstep : Watch.Step config w (.failed message) w') : createdIds ws = [] := by
  have hphase := (history (hrun.snoc hstep)).phaseHistory
  rw [phase_failed_of_step hstep] at hphase
  simpa using hphase.1

/-- A watch that is being started does not run. -/
theorem not_started_of_step {config : WatchConfig} {w w' : Watch.State} {e : Watch.Event}
    (h : Watch.Step config w e w') (hstarted : ¬ w.phase.Started) (he : e ≠ .started) :
    ¬ w'.phase.Started := by
  cases h with
  | start => exact absurd rfl he
  | stop hp => exact absurd hp hstarted
  | opened | openFailed | listOne | listAll | listFailed | listNone | create | createFailed
  | createdNone => exact id
  | enter hp | leave hp | poll hp | pollFailed hp | pass hp | giveUp hp | wake hp | remove hp
  | exit hp =>
      rw [hp] at hstarted
      exact absurd trivial hstarted

theorem Over.snoc {result : Except Filter.Failure Unit} (h : Over args es s result)
    (hjoin : t.join = .unborn ↔ s.join = .unborn)
    (hstarted : t.watch.phase.Started ↔ s.watch.phase.Started)
    (hcancel : t.watch.cancel = s.watch.cancel)
    (hcreated : createdIds (watchEvents (es ++ [e])) = createdIds (watchEvents es)) :
    Over args (es ++ [e]) t result := by
  rcases h with ⟨hunborn, hidle, hnone⟩ | ⟨hborn, hphase, hset, hresult⟩
  · exact .inl ⟨hjoin.mpr hunborn, fun h ↦ hidle (hstarted.mp h), hcreated.trans hnone⟩
  · exact .inr ⟨fun h ↦ hborn (hjoin.mp h), hstarted.mpr hphase, hcancel.trans hset, hresult⟩

/-- Something happens behind `start_watch`. -/
theorem MainOk.snoc (h : MainOk args es s s.main) (hmain : t.main = s.main)
    (hbehind : s.main = .waiting ∨ ∃ result, s.main = .returned result)
    (hjoin : t.join = .unborn ↔ s.join = .unborn)
    (hstarted : t.watch.phase.Started ↔ s.watch.phase.Started)
    (hcancel : t.watch.cancel = s.watch.cancel)
    (hcreated : createdIds (watchEvents (es ++ [e])) = createdIds (watchEvents es)) :
    MainOk args (es ++ [e]) t t.main := by
  rw [hmain]
  rcases hbehind with hm | ⟨result, hm⟩ <;> rw [hm] at h ⊢
  · exact ⟨fun hunborn ↦ h.1 (hjoin.mp hunborn), hstarted.mpr h.2.1, hcancel.trans h.2.2⟩
  · exact Over.snoc h hjoin hstarted hcancel hcreated

/-- Before `start_watch` has returned the watch is being started. -/
theorem Sound.launch (h : Sound args es s) (hm : s.main = .starting) (hmain : t.main = s.main)
    (hjoin : t.join = s.join) {config : WatchConfig} {we : Watch.Event}
    (hw : Watch.Step config s.watch we t.watch) (hstop : we ≠ .stop) (hstarted : we ≠ .started) :
    Sound args (es ++ [e]) t := by
  have hstarting := h.main
  rw [hm] at hstarting
  refine ⟨?_, fun hdone ↦ absurd ((hjoin.trans hstarting.1).symm.trans hdone) (by simp)⟩
  rw [hmain, hm]
  exact ⟨hjoin.trans hstarting.1, not_started_of_step hw hstarting.2.1 hstarted,
    (hw.cancel_eq hstop).trans hstarting.2.2⟩

/-- The thread does something. -/
theorem Sound.thread (h : Sound args es s)
    (hbehind : s.main = .waiting ∨ ∃ result, s.main = .returned result)
    (hstarted : s.watch.phase.Started) (hmain : t.main = s.main) (hjoin : t.join = s.join)
    {config : WatchConfig} {we : Watch.Event} (hw : Watch.Step config s.watch we t.watch)
    (hstop : we ≠ .stop) (he : e.ofWatch = some we) : Sound args (es ++ [e]) t := by
  have hcreated : createdIds (watchEvents (es ++ [e])) = createdIds (watchEvents es) := by
    rw [watchEvents_snoc, he, Option.toList_some, createdIds_snoc,
      createdIds_of_started hw hstarted]
    exact List.append_nil _
  refine ⟨h.main.snoc hmain hbehind (by rw [hjoin]) (iff_of_true (hw.started hstarted) hstarted)
    (hw.cancel_eq hstop) hcreated, fun hdone ↦ ?_⟩
  exact phase_exited_of_step hw (h.joined (hjoin ▸ hdone))

/-- **The step lemma.** -/
theorem Sound.step (h : Sound args es s) (hrun : Run (Step arch args) initial es s)
    (hstep : Step arch args s e t) : Sound args (es ++ [e]) t := by
  have hmain := h.main
  cases hstep with
  | refuseArgs hm | refuse hm =>
      rw [hm] at hmain
      exact ⟨.inl ⟨hmain.1, by simp [hmain.2.1, Watch.State.initial, Phase.Started],
        by simpa using hmain.2.2⟩, h.joined⟩
  | check hm _ =>
      rw [hm] at hmain
      exact ⟨⟨hmain.1, by simp [hmain.2.1, Watch.State.initial, Phase.Started], by
        rw [hmain.2.1]; rfl⟩, h.joined⟩
  | launch hm _ hw hstop hstarted => exact h.launch hm rfl rfl hw hstop hstarted
  | create hm _ hw => exact h.launch hm rfl rfl hw (by simp) (by simp)
  | launched hm _ hw =>
      rw [hm] at hmain
      refine ⟨⟨by simp, ?_, (hw.cancel_eq (by simp)).trans hmain.2.2⟩, fun hdone ↦ by cases hdone⟩
      cases hw with
      | start => trivial
  | launchFailed hm hprepared hw =>
      rw [hm] at hmain
      have hnone := createdIds_of_failed (run_watch hprepared hrun) hw
      exact ⟨.inl ⟨hmain.1, by simp [phase_failed_of_step hw, Phase.Started], by simpa using hnone⟩,
        fun hdone ↦ absurd (hmain.1.symm.trans hdone) (by simp)⟩
  | thread hm hstarted _ hw hstop => exact h.thread hm hstarted rfl rfl hw hstop rfl
  | remove hm hstarted _ hw => exact h.thread hm hstarted rfl rfl hw (by simp) rfl
  | joining hm hjoin =>
      exact ⟨hmain.snoc rfl hm (by simp [hjoin]) Iff.rfl rfl (by simp), fun hdone ↦ by cases hdone⟩
  | joined hjoin hphase =>
      have hbehind : s.main = .waiting ∨ ∃ result, s.main = .returned result := by
        cases hm : s.main <;> rw [hm] at hmain
        case waiting => exact .inl rfl
        case returned result => exact .inr ⟨result, rfl⟩
        case exited => exact absurd hjoin hmain.2
        case checking | starting => exact absurd (hmain.1.symm.trans hjoin) (by simp)
      exact ⟨hmain.snoc rfl hbehind (by simp [hjoin]) Iff.rfl rfl (by simp), fun _ ↦ hphase⟩
  | timeUp hm hprepared htimeout hw =>
      rw [hm] at hmain
      have hlimited : ∀ command', args.intoMode = .ok (.watch command') → command'.timeout ≠ 0 := by
        intro command' hmode
        cases hprepared.mode.symm.trans hmode
        exact htimeout
      refine ⟨.inr ⟨hmain.1, hw.started hmain.2.1, ?_, rfl, hlimited⟩,
        fun hdone ↦ phase_exited_of_step hw (h.joined hdone)⟩
      cases hw with
      | stop => rfl
  | exit hm hjoin =>
      rw [hm] at hmain
      exact ⟨⟨Over.snoc hmain Iff.rfl Iff.rfl rfl (by simp), hjoin⟩, h.joined⟩

/-- **The run lemma.** -/
theorem sound (hrun : Run (Step arch args) initial es s) : Sound args es s := by
  induction hrun with
  | nil => exact sound_initial
  | snoc hrun hstep ih => exact ih.step hrun hstep

/-! ## The breakpoints of the driver -/

/-- **The driver keeps** what the watch holds, and what it has refused to remove. -/
structure Kept (es : List Event) (s : Process) : Prop where
  held : ∀ id ∈ s.watch.held, id ∈ s.installed
  known : ∀ id ∈ s.installed, id ∈ s.watch.held ∨ .removed id false ∈ es
  nodup : s.installed.Nodup
  created : (createdIds (watchEvents es)).Nodup

theorem kept_initial : Kept [] initial where
  held id hid := by cases hid
  known id hid := by cases hid
  nodup := .nil
  created := .nil

/-- An action that creates and removes nothing. -/
theorem Kept.frame (h : Kept es s) (hheld : t.watch.held = s.watch.held)
    (hinstalled : t.installed = s.installed)
    (hcreated : createdIds (watchEvents (es ++ [e])) = createdIds (watchEvents es)) :
    Kept (es ++ [e]) t where
  held := by rw [hheld, hinstalled]; exact h.held
  known id hid := by
    rw [hinstalled] at hid
    rw [hheld]
    exact (h.known id hid).imp_right (List.mem_append_left _)
  nodup := hinstalled ▸ h.nodup
  created := hcreated ▸ h.created

/-- An action of the watch that creates and removes nothing. -/
theorem Kept.watch (h : Kept es s) {config : WatchConfig} {we : Watch.Event}
    (hw : Watch.Step config s.watch we t.watch) (hinstalled : t.installed = s.installed)
    (he : e.ofWatch = some we) (hcreated : we.createdId = none) (hremoved : we.removedId = none) :
    Kept (es ++ [e]) t := by
  have hheld := hw.held_eq
  rw [hcreated, hremoved, Option.toList_none, List.append_nil, List.nil_append] at hheld
  refine h.frame hheld.symm hinstalled ?_
  rw [watchEvents_snoc, he, Option.toList_some, createdIds_snoc, hcreated]
  exact List.append_nil _

/-- The driver gives a breakpoint that nobody has. -/
theorem Kept.create (h : Kept es s) {id : Int32} {call : CreateCall}
    (hheld : t.watch.held = s.watch.held ++ [id]) (hinstalled : t.installed = s.installed ++ [id])
    (hfree : id ∉ s.installed) (hcreated : createdIds (watchEvents es) = s.watch.held) :
    Kept (es ++ [.watch (.created call id)]) t where
  held id' hid' := by
    rw [hheld, List.mem_append] at hid'
    rw [hinstalled, List.mem_append]
    exact hid'.imp_left (h.held id')
  known id' hid' := by
    rw [hinstalled, List.mem_append] at hid'
    rw [hheld, List.mem_append]
    rcases hid' with hid' | hid'
    · exact (h.known id' hid').imp .inl (List.mem_append_left _)
    · exact .inl (.inr hid')
  nodup := by
    rw [hinstalled, ← List.concat_eq_append]
    exact h.nodup.concat hfree
  created := by
    have hnew : id ∉ createdIds (watchEvents es) := fun hid ↦ hfree (h.held id (hcreated ▸ hid))
    have hconcat := h.created.concat hnew
    rw [List.concat_eq_append] at hconcat
    simpa [createdIds_snoc] using hconcat

/-- The driver is asked to remove the first breakpoint that is held. -/
theorem Kept.remove (h : Kept es s) {id : Int32} {done : Bool}
    (hheld : s.watch.held = id :: t.watch.held) (hnodup : s.watch.held.Nodup)
    (hinstalled : t.installed = if done then s.installed.erase id else s.installed) :
    Kept (es ++ [.removed id done]) t where
  held id' hid' := by
    rw [hheld, List.nodup_cons] at hnodup
    have hmem : id' ∈ s.installed := h.held id' (hheld ▸ List.mem_cons_of_mem _ hid')
    have hne : id' ≠ id := fun heq ↦ hnodup.1 (heq ▸ hid')
    rw [hinstalled]
    split
    · exact (List.mem_erase_of_ne hne).mpr hmem
    · exact hmem
  known id' hid' := by
    rw [hinstalled] at hid'
    have hmem : id' ∈ s.installed := by
      split at hid'
      · exact List.mem_of_mem_erase hid'
      · exact hid'
    rcases h.known id' hmem with hold | hrefused
    · rw [hheld, List.mem_cons] at hold
      rcases hold with rfl | hold
      · cases done with
        | true => exact absurd hid' (h.nodup.not_mem_erase)
        | false => exact .inr (by simp)
      · exact .inl hold
    · exact .inr (List.mem_append_left _ hrefused)
  nodup := by
    rw [hinstalled]
    split
    · exact h.nodup.erase id
    · exact h.nodup
  created := by
    rw [watchEvents_snoc, Event.ofWatch, Option.toList_some, createdIds_snoc]
    simpa using h.created

/-- **The step lemma.** -/
theorem Kept.step (h : Kept es s) (hrun : Run (Step arch args) initial es s)
    (hstep : Step arch args s e t) : Kept (es ++ [e]) t := by
  cases hstep with
  | refuseArgs | refuse | check | joining | joined | exit => exact h.frame rfl rfl (by simp)
  | @launch _ _ we _ hm _ hw hstop hstarted hfailed hcreated =>
      refine h.watch hw rfl rfl ?_ ?_
      · cases we with
        | created call id => exact absurd rfl (hcreated call id)
        | _ => rfl
      · have hmain := (sound hrun).main
        rw [hm] at hmain
        exact removedId_of_not_started hw hmain.2.1
  | @create _ config call id w hm hprepared hw hfree =>
      have hhistory := history (run_watch hprepared hrun)
      have hnone : removedIds (watchEvents es) = [] := by
        have hphase := hhistory.phaseHistory
        cases hw with
        | create hp =>
            rw [hp] at hphase
            exact Quiet.removedIds_eq hphase
      have hcreated := hhistory.removedIds_append_held
      rw [hnone, List.nil_append] at hcreated
      exact h.create hw.held_eq.symm rfl hfree hcreated.symm
  | launched _ _ hw | launchFailed _ _ hw | timeUp _ _ _ hw => exact h.watch hw rfl rfl rfl rfl
  | @thread _ _ we _ _ hstarted _ hw hstop hremoved =>
      refine h.watch hw rfl rfl (createdIds_of_started hw hstarted) ?_
      cases we with
      | removed id => exact absurd rfl (hremoved id)
      | _ => rfl
  | @remove _ _ id done w _ hstarted hprepared hw =>
      have hcreated := (history (run_watch hprepared hrun)).removedIds_append_held
      have hnodup : s.watch.held.Nodup :=
        (hcreated ▸ h.created).sublist (List.sublist_append_right ..)
      have hheld : s.watch.held = id :: w.held := by simpa using hw.held_eq
      exact h.remove hheld hnodup rfl

/-- **The run lemma.** -/
theorem kept (hrun : Run (Step arch args) initial es s) : Kept es s := by
  induction hrun with
  | nil => exact kept_initial
  | snoc hrun hstep ih => exact ih.step hrun hstep

/-- What the driver keeps was created. -/
theorem Kept.known_created (h : Kept es s) {config : WatchConfig}
    (hwatch : Run (Watch.Step config) .initial (watchEvents es) s.watch) {id : Int32}
    (hid : id ∈ s.installed) : id ∈ createdIds (watchEvents es) := by
  have hhistory := history hwatch
  rcases h.known id hid with hheld | hrefused
  · rw [← hhistory.removedIds_append_held]
    exact List.mem_append_right _ hheld
  · refine hhistory.removedIds_prefix.subset (List.mem_filterMap.mpr ⟨.removed id, ?_, rfl⟩)
    exact List.mem_filterMap.mpr ⟨_, hrefused, rfl⟩

end Process

end Pwatch.Cli
