import Pwatch.Cli.Process

/-!
# The end of the process

A process that ends has asked the driver to remove each breakpoint it has created, unless its
`join` was still in the queue of the runtime; what is left is what the driver has refused to
remove (`leaves_only_refused`).
-/

namespace Pwatch.Cli.Process

open Watch

variable {arch : Arch} {args : Args} {command : WatchCommand} {es : List Event} {s : Process}

/-! ## A thread that is told to stop -/

/-- The thread can finish on its own. -/
def Finishes (config : WatchConfig) (w : Watch.State) : Prop :=
  ∃ ws w', Run (Watch.Step config) w ws w' ∧ w'.phase = .exited ∧ .stop ∉ ws

section

variable {config : WatchConfig} {w w' : Watch.State}

theorem Finishes.cons {e : Watch.Event} (hstep : Watch.Step config w e w') (hstop : e ≠ .stop)
    (h : Finishes config w') : Finishes config w := by
  obtain ⟨ws, w'', hrun, hexited, hnot⟩ := h
  exact ⟨e :: ws, w'', hrun.cons hstep, hexited, by simp [hnot, hstop.symm]⟩

theorem finishes_of_removing {pending : List Int32} (hp : w.phase = .removing pending) :
    Finishes config w :=
  ⟨_, _, run_removals hp, rfl, by simp⟩

theorem finishes_of_head (hp : w.phase = .head) (hcancel : w.cancel = true) : Finishes config w :=
  .cons (.leave hp hcancel) (by simp) (finishes_of_removing rfl)

theorem finishes_of_sleeping (hp : w.phase = .sleeping) (hcancel : w.cancel = true) :
    Finishes config w :=
  .cons (.wake hp) (by simp) (finishes_of_head rfl hcancel)

/-- The pass that is going on comes to its end, say because the driver fails. -/
theorem finishes_of_polling {pending : List Int32} {n : Nat} (hp : w.phase = .polling pending n)
    (hcancel : w.cancel = true) : Finishes config w := by
  induction pending generalizing w n with
  | nil =>
      by_cases hlt : errorsAfter w n < 10
      · exact .cons (.pass hp hlt) (by simp) (finishes_of_sleeping rfl hcancel)
      · exact .cons (.giveUp hp hlt) (by simp) (finishes_of_removing rfl)
  | cons id pending ih => exact .cons (.pollFailed hp) (by simp) (ih rfl hcancel)

/-- A thread that is told to stop can always finish. -/
theorem finishes (hstarted : w.phase.Started) (hcancel : w.cancel = true) : Finishes config w := by
  cases hp : w.phase with
  | opening | listing | creating | failed =>
      rw [hp] at hstarted
      exact hstarted.elim
  | head => exact finishes_of_head hp hcancel
  | polling pending n => exact finishes_of_polling hp hcancel
  | sleeping => exact finishes_of_sleeping hp hcancel
  | removing pending => exact finishes_of_removing hp
  | exited => exact ⟨[], w, .nil, hp, by simp⟩

end

/-- The driver does what the thread asks for. -/
def Event.granted : Watch.Event → Event
  | .removed id => .removed id true
  | e => .watch e

/-- The thread goes on while the runtime is dropped. -/
theorem run_thread {config : WatchConfig} (hprepared : Prepared arch args command config)
    {result : Except Filter.Failure Unit} (hmain : s.main = .returned result)
    (hstarted : s.watch.phase.Started) {ws : List Watch.Event} {w : Watch.State}
    (hrun : Run (Watch.Step config) s.watch ws w) (hstop : .stop ∉ ws) :
    w.phase.Started ∧ ∃ installed, Run (Step arch args) s (ws.map Event.granted)
      { s with watch := w, installed := installed } := by
  induction hrun with
  | nil => exact ⟨hstarted, s.installed, .nil⟩
  | @snoc ws w w' e _ hstep ih =>
      obtain ⟨hrunning, installed, hsteps⟩ := ih fun hmem ↦ hstop (List.mem_append_left _ hmem)
      have hne : e ≠ .stop := fun heq ↦ hstop (by simp [heq])
      refine ⟨hstep.started hrunning, ?_⟩
      rw [List.map_append]
      cases e with
      | removed id =>
          exact ⟨_, hsteps.snoc (.remove (.inr ⟨result, hmain⟩) hrunning hprepared hstep)⟩
      | _ =>
          exact ⟨_, hsteps.snoc
            (.thread (.inr ⟨result, hmain⟩) hrunning hprepared hstep hne (by simp))⟩

/-- A thread that is done has asked for the removal of what was created, and holds nothing. -/
theorem removed_of_exited {config : WatchConfig} {ws : List Watch.Event} {w : Watch.State}
    (hrun : Run (Watch.Step config) .initial ws w) (hexited : w.phase = .exited) :
    removedIds ws = createdIds ws ∧ w.held = [] := by
  have hhistory := history hrun
  have hphase := hhistory.phaseHistory
  have happend := hhistory.removedIds_append_held
  rw [hexited] at hphase
  rw [hphase.2] at happend
  exact ⟨hphase.2, List.append_right_eq_self.mp happend⟩

/-- A process that is not prepared has no watch. -/
theorem exists_prepared (hrun : Run (Step arch args) initial es s) :
    watchEvents es = [] ∧ s.watch = .initial ∧ s.installed = [] ∨
      ∃ command config, Prepared arch args command config := by
  induction hrun with
  | nil => exact .inl ⟨rfl, rfl, rfl⟩
  | snoc _ hstep ih =>
      cases hstep with
      | check _ h | launch _ h | create _ h | launched _ h | launchFailed _ h | thread _ _ h
      | remove _ _ h | timeUp _ h => exact .inr ⟨_, _, h⟩
      | refuseArgs | refuse | joining | joined | exit =>
          exact ih.imp_left fun hnil ↦ by simp [hnil]

/-- **Nothing but what was refused.**  The driver was asked once for each breakpoint that was
created, and what it keeps it has refused to remove. -/
structure OnlyRefused (es : List Event) (s : Process) : Prop where
  asked : removedIds (watchEvents es) = createdIds (watchEvents es)
  once : (createdIds (watchEvents es)).Nodup
  left : ∀ id ∈ s.installed, .removed id false ∈ es

/-- What a process keeps to. -/
structure ProcessLaws (arch : Arch) (args : Args) (es : List Event) (s : Process) : Prop where
  /-- Nothing starts unless a watch is asked for that can be configured. -/
  asked : watchEvents es = [] ∧ s.installed = [] ∨
    ∃ command config, args.AsksFor command ∧ watchConfig arch command = .ok config
  /-- The error names a positional argument that is missing. -/
  missing : ∀ name, args.Lacks name → ∀ result,
    s.main = .returned result ∨ s.main = .exited result →
      result = .error (.bail ("missing required argument: ".toList ++ name))
  /-- A process that fails leaves nothing. -/
  failed : ∀ failure, s.main = .returned (.error failure) ∨ s.main = .exited (.error failure) →
    createdIds (watchEvents es) = [] ∧ s.installed = []
  /-- Without a timeout, a watch that runs is never told to stop. -/
  forever : ∀ command, args.intoMode = .ok (.watch command) → command.timeout = 0 →
    s.watch.phase.Started → s.main = .waiting ∧ s.watch.cancel = false
  /-- At the end the thread has cleaned up, unless its `join` was never taken up. -/
  clean : ∀ result, s.main = .exited result → s.join ≠ .queued → OnlyRefused es s
  /-- The end can be reached, and is a clean one when the `join` was taken up. -/
  ends : ∀ result, s.main = .returned result → ∃ fs t, Run (Step arch args) s fs t ∧
    t.main = .exited result ∧ (s.join ≠ .queued → OnlyRefused (es ++ fs) t)

theorem Sound.failed (h : Sound args es s) {failure : Filter.Failure}
    (hmain : s.main = .returned (.error failure) ∨ s.main = .exited (.error failure)) :
    createdIds (watchEvents es) = [] := by
  have hover : Over args es s (.error failure) := by
    have hsound := h.main
    rcases hmain with hm | hm <;> rw [hm] at hsound
    · exact hsound
    · exact hsound.1
  rcases hover with ⟨-, -, hnone⟩ | ⟨-, -, -, hresult, -⟩
  · exact hnone
  · cases hresult

theorem Over.timeout_ne {result : Except Filter.Failure Unit} (h : Over args es s result)
    (hstarted : s.watch.phase.Started) (hmode : args.intoMode = .ok (.watch command)) :
    command.timeout ≠ 0 := by
  rcases h with ⟨-, hidle, -⟩ | ⟨-, -, -, -, htimeout⟩
  · exact absurd hstarted hidle
  · exact htimeout command hmode

theorem Sound.forever (h : Sound args es s) (hmode : args.intoMode = .ok (.watch command))
    (htimeout : command.timeout = 0) (hstarted : s.watch.phase.Started) :
    s.main = .waiting ∧ s.watch.cancel = false := by
  have hsound := h.main
  cases hm : s.main <;> rw [hm] at hsound
  case checking => simp [hsound.2.1, Watch.State.initial, Phase.Started] at hstarted
  case starting => exact absurd hstarted hsound.2.1
  case waiting => exact ⟨rfl, hsound.2.2⟩
  case returned result => exact absurd htimeout (Over.timeout_ne hsound hstarted hmode)
  case exited result => exact absurd htimeout (Over.timeout_ne hsound.1 hstarted hmode)

/-- What was never created is not with the driver. -/
theorem installed_of_nothing_created (hrun : Run (Step arch args) initial es s)
    (hnone : createdIds (watchEvents es) = []) : s.installed = [] := by
  rcases exists_prepared hrun with ⟨-, -, hinstalled⟩ | ⟨command, config, hprepared⟩
  · exact hinstalled
  · exact List.eq_nil_iff_forall_not_mem.mpr fun id hid ↦ by
      have hmem := (kept hrun).known_created (run_watch hprepared hrun) hid
      simp [hnone] at hmem

theorem clean (hrun : Run (Step arch args) initial es s) {result : Except Filter.Failure Unit}
    (hmain : s.main = .exited result) (hjoin : s.join ≠ .queued) : OnlyRefused es s := by
  have h := sound hrun
  have hsound := h.main
  rw [hmain] at hsound
  rcases exists_prepared hrun with ⟨hnil, -, hinstalled⟩ | ⟨command, config, hprepared⟩
  · exact ⟨by rw [hnil]; rfl, (kept hrun).created, by simp [hinstalled]⟩
  have hwatch := run_watch hprepared hrun
  cases hj : s.join with
  | queued => exact absurd hj hjoin
  | running => exact absurd hj hsound.2
  | done =>
      obtain ⟨hasked, hheld⟩ := removed_of_exited hwatch (h.joined hj)
      refine ⟨hasked, (kept hrun).created, fun id hid ↦ ?_⟩
      exact ((kept hrun).known id hid).resolve_left (by simp [hheld])
  | unborn =>
      rcases hsound.1 with ⟨-, -, hnone⟩ | ⟨hborn, -⟩
      · have hprefix := History.removedIds_prefix (history hwatch)
        rw [hnone] at hprefix
        refine ⟨(List.prefix_nil.mp hprefix).trans hnone.symm, (kept hrun).created, ?_⟩
        simp [installed_of_nothing_created hrun hnone]
      · exact absurd hj hborn

/-- Arguments that cannot be read are all that `main` speaks of. -/
theorem missing {message : Str} (hrun : Run (Step arch args) initial es s)
    (hmode : args.intoMode = .error message) {result : Except Filter.Failure Unit}
    (hmain : s.main = .returned result ∨ s.main = .exited result) :
    result = .error (.bail message) := by
  have hnever : ∀ {command config}, ¬ Prepared arch args command config := fun h ↦ by
    cases h.mode.symm.trans hmode
  induction hrun generalizing result with
  | nil => simp [initial] at hmain
  | snoc _ hstep ih =>
      cases hstep with
      | refuseArgs _ herror =>
          cases herror.symm.trans hmode
          simpa [eq_comm] using hmain
      | refuse _ hother => cases hother.symm.trans hmode
      | check _ h | launch _ h | create _ h | launched _ h | launchFailed _ h | thread _ _ h
      | remove _ _ h | timeUp _ h => exact absurd h hnever
      | joining | joined => exact ih hmain
      | exit hm _ =>
          obtain rfl : _ = result := by simpa using hmain
          exact ih (.inl hm)

theorem ends (hrun : Run (Step arch args) initial es s) {result : Except Filter.Failure Unit}
    (hmain : s.main = .returned result) :
    ∃ fs t, Run (Step arch args) s fs t ∧ t.main = .exited result ∧
      (s.join ≠ .queued → OnlyRefused (es ++ fs) t) := by
  have hsound := (sound hrun).main
  rw [hmain] at hsound
  by_cases hj : s.join = .running
  · rcases hsound with ⟨hunborn, -⟩ | ⟨-, hstarted, hcancel, -⟩
    · exact absurd (hunborn.symm.trans hj) (by simp)
    · rcases exists_prepared hrun with ⟨-, hinitial, -⟩ | ⟨command, config, hprepared⟩
      · simp [hinitial, Watch.State.initial, Phase.Started] at hstarted
      · obtain ⟨ws, w, hws, hexited, hstop⟩ : Finishes config s.watch := finishes hstarted hcancel
        obtain ⟨-, installed, hthread⟩ := run_thread hprepared hmain hstarted hws hstop
        have hjoined : Step arch args { s with watch := w, installed := installed } .joined
            { s with watch := w, installed := installed, join := .done } := .joined hj hexited
        have hexit : Step arch args { s with watch := w, installed := installed, join := .done }
            .exited ⟨w, .exited result, .done, installed⟩ := .exit hmain (by simp)
        have hfs := (hthread.snoc hjoined).snoc hexit
        exact ⟨_, _, hfs, rfl, fun _ ↦ clean (hrun.append hfs) rfl (by simp)⟩
  · have hexit : Run (Step arch args) s [.exited] _ := .single (.exit hmain hj)
    exact ⟨_, _, hexit, rfl, fun hqueued ↦ clean (hrun.append hexit) rfl hqueued⟩

end Pwatch.Cli.Process
