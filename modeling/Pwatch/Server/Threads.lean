import Pwatch.Server.Creates
import Pwatch.Watch.Threads

/-!
# The threads of a breakpoint

The view of a breakpoint shows the threads that `start_driver_watch` has returned, from the
answer of the create to the last list the breakpoint is in.
-/

namespace Pwatch.Server

open Watch

variable {arch : Arch} {es : List Event} {e : Event} {s t : Registry} {r : Nat}

/-! ## Views -/

/-- The view a job has made. -/
def CreatePhase.view : CreatePhase → Option BreakpointView
  | .locking view | .inserting view | .done (.ok view) => some view
  | _ => none

theorem CreatePhase.view_of_pending {phase : CreatePhase} (h : phase.Pending) :
    phase.view = none := by
  cases phase with
  | idle | admitted _ | resolving _ _ | filtering _ _ _ | numbering _ _ => rfl
  | launching _ | locking _ | inserting _ | done _ => exact h.elim

/-- The view shows the threads that were listed for the watch of the create. -/
def ShowsTids (c : Create) (view : BreakpointView) : Prop :=
  ∃ l, c.launched = some l ∧ l.watch.phase.Started ∧ view.threads = l.watch.tids

/-- **The step lemma.** -/
theorem CreateStep.showsTids {we : Option Watch.Event} {c c' : Create} (h : CreateStep c we c')
    (hshows : ∀ view, c.phase.view = some view → ShowsTids c view) {view : BreakpointView}
    (hview : c'.phase.view = some view) : ShowsTids c' view := by
  cases h with
  | same | answer => exact hshows view hview
  | accept | number => cases hview
  | check _ _ hphase =>
      rcases hphase with hpending | ⟨message, rfl⟩
      · rw [CreatePhase.view_of_pending hpending] at hview
        cases hview
      · cases hview
  | launchFailed => cases hview
  | watch hl hw =>
      obtain ⟨l', hl', hstarted, htids⟩ := hshows view hview
      cases hl.symm.trans hl'
      exact ⟨_, rfl, hw.started hstarted, htids.trans (hw.tids_eq hstarted).symm⟩
  | launched hl hp hw =>
      cases hview
      cases hw
      exact ⟨_, rfl, trivial, rfl⟩
  | lockInsert hp | insert hp =>
      refine hshows view ?_
      rw [hp]
      exact hview

/-- **The run lemma.** -/
theorem showsTids (hrun : Run (Step arch) Registry.initial es s) (r : Nat)
    {view : BreakpointView} (hview : (s.creates r).phase.view = some view) :
    ShowsTids (s.creates r) view := by
  induction hrun generalizing view with
  | nil => cases hview
  | snoc _ hstep ih => exact (hstep.create r).showsTids (fun _ ↦ ih) hview

/-- The create is answered with the view, or the registry has it. -/
def Shows (s : Registry) (r : Nat) (view : BreakpointView) : Prop :=
  (s.creates r).reply = some (.created view) ∨
    ∃ id, s.breakpoints.lookup id = some ⟨view, r⟩

theorem Creates.done_of_shows (h : Creates es s) {view : BreakpointView} (hshows : Shows s r view) :
    (s.creates r).phase = .done (.ok view) := by
  rcases hshows with hreply | ⟨id, hentry⟩
  · have hok := (h.create r).reply_ok
    rw [hreply] at hok
    exact hok
  · exact h.entry_done id _ hentry

/-! ## Reported threads -/

/-- **Reported threads.**  What `start_driver_watch` returns, and every view of the
breakpoint, has the threads whose breakpoint was created, in order, when no `create` has failed,
and has others besides when one has. -/
theorem reportedThreads (arch : Arch) (config : WatchConfig) :
    (∀ es w, Run (Watch.Step config) .initial es w → w.phase.Started →
      (ReportsWatched es w.tids w.breakpoints ↔ ∀ call, .createFailed call ∉ es)) ∧
    ∀ es s r view, Run (Step arch) Registry.initial es s → Shows s r view →
      ∃ l, (s.creates r).launched = some l ∧
        (ReportsWatched (watchEvents r es) view.threads l.watch.breakpoints ↔
          ∀ call, .createFailed call ∉ watchEvents r es) := by
  refine ⟨fun es w ↦ reportsWatched_iff, fun es s r view hrun hshows ↦ ?_⟩
  have h := creates hrun
  have hview : (s.creates r).phase.view = some view := by
    rw [h.done_of_shows hshows]
    rfl
  obtain ⟨l, hl, hstarted, htids⟩ := showsTids hrun r hview
  rw [htids]
  exact ⟨l, hl, reportsWatched_iff ((h.create r).watch_run l hl) hstarted⟩

/-- A watch on the process 7. -/
def watch7 : WatchConfig := ⟨7, false, "w4".toList, "0x40".toList, 2, 0x40, 4, false, none⟩

/-- Two threads, two breakpoints. -/
theorem reportedThreads_two :
    ReportsWatched [.opened, .listed [7, 8], .created (watch7.createCall 7) 5,
      .created (watch7.createCall 8) 6, .started] [7, 8] [5, 6] := by
  have hlist : Watch.Step watch7 { State.initial with phase := .listing } (.listed [7, 8]) _ :=
    .listAll rfl rfl (by simp)
  have hrun : Run (Watch.Step watch7) .initial _ ⟨[7, 8], [5, 6], .head, 0, false⟩ :=
    .cons (.opened rfl) (.cons hlist (.cons (.create rfl) (.cons (.create rfl)
      (.single (.start rfl (by simp [State.initial]))))))
  exact ((reportedThreads .aarch64 watch7).1 _ _ hrun trivial).mpr (by simp)

/-- A thread that has ended before its breakpoint is created. -/
theorem not_reportedThreads :
    ¬ ∀ (config : WatchConfig) (es : List Watch.Event) (w : Watch.State),
      Run (Watch.Step config) .initial es w → w.phase.Started →
        ReportsWatched es w.tids w.breakpoints := by
  intro hclaim
  have hlist : Watch.Step watch7 { State.initial with phase := .listing } (.listed [7, 8]) _ :=
    .listAll rfl rfl (by simp)
  have hrun : Run (Watch.Step watch7) .initial _ ⟨[7, 8], [6], .head, 0, false⟩ :=
    .cons (.opened rfl) (.cons hlist (.cons (.createFailed rfl) (.cons (.create rfl)
      (.single (.start rfl (by simp [State.initial]))))))
  have hthreads := (hclaim watch7 _ _ hrun trivial).threads_eq
  exact absurd hthreads (by decide)

end Pwatch.Server
