import Pwatch.Watch.Lifecycle

/-!
# The threads of a watch

`start_driver_watch` makes one attempt at a breakpoint for each thread it has listed, and
goes on when an attempt fails.  The threads it reports are those it has listed; the
breakpoints its thread polls are those of the attempts that succeeded.
-/

namespace Pwatch.Watch

variable {config : WatchConfig} {es : List Event} {e : Event} {s t : State}

/-! ## Attempts -/

namespace Event

/-- The thread of a `create`, and the breakpoint it has returned. -/
@[simp] def attempt : Event → Option (UInt32 × Option Int32)
  | .created call id => some (call.pid.toUInt32, some id)
  | .createFailed call => some (call.pid.toUInt32, none)
  | _ => none

/-- The thread of a `create` that has succeeded, and its breakpoint. -/
@[simp] def watched : Event → Option (UInt32 × Int32)
  | .created call id => some (call.pid.toUInt32, id)
  | _ => none

end Event

/-- The calls of `create`, in order. -/
def attempts (es : List Event) : List (UInt32 × Option Int32) := es.filterMap Event.attempt

/-- The threads whose breakpoint was created, each with its breakpoint, in order. -/
def watched (es : List Event) : List (UInt32 × Int32) := es.filterMap Event.watched

@[simp] theorem attempts_snoc (es : List Event) (e : Event) :
    attempts (es ++ [e]) = attempts es ++ e.attempt.toList :=
  filterMap_snoc _ es e

/-- The attempts that succeeded. -/
theorem watched_eq (es : List Event) :
    watched es = (attempts es).filterMap fun attempt ↦ attempt.2.map (attempt.1, ·) := by
  rw [watched, attempts, List.filterMap_filterMap]
  refine List.filterMap_congr fun e _ ↦ ?_
  cases e <;> rfl

theorem watched_map_snd (es : List Event) : (watched es).map Prod.snd = createdIds es := by
  rw [watched, createdIds, List.map_filterMap]
  refine List.filterMap_congr fun e _ ↦ ?_
  cases e <;> rfl

/-- No attempt failed. -/
theorem forall_attempts_iff :
    (∀ attempt ∈ attempts es, attempt.2.isSome) ↔ ∀ call, .createFailed call ∉ es := by
  constructor
  · intro hall call hfailed
    have hnone := hall _ (List.mem_filterMap.mpr ⟨_, hfailed, rfl⟩)
    cases hnone
  · intro hnone attempt hattempt
    obtain ⟨e, he, hsome⟩ := List.mem_filterMap.mp hattempt
    cases e with
    | created call id => rw [← Option.some.inj hsome]; rfl
    | createFailed call => exact absurd he (hnone call)
    | _ => cases hsome

/-- A list from which something is dropped is not the same. -/
theorem map_fst_filterMap_eq_iff {α β : Type*} (l : List (α × Option β)) :
    (l.filterMap fun a ↦ a.2.map (a.1, ·)).map Prod.fst = l.map Prod.fst ↔
      ∀ a ∈ l, a.2.isSome := by
  induction l with
  | nil => simp
  | cons a l ih =>
      obtain ⟨x, y⟩ := a
      cases y with
      | some y => simpa using ih
      | none =>
          refine iff_of_false (fun heq ↦ ?_) (by simp)
          have hlength := congrArg List.length heq
          have hle := List.length_filterMap_le (fun a : α × Option β ↦ a.2.map (a.1, ·)) l
          simp at hlength
          omega

/-! ## The listed threads -/

/-- How far the attempts have come in each phase. -/
def Attempted (es : List Event) (s : State) : Phase → Prop
  | .opening | .listing => attempts es = []
  | .creating todo => (attempts es).map Prod.fst ++ todo = s.tids
  | .failed => True
  | .head | .polling _ _ | .sleeping | .removing _ | .exited =>
      (attempts es).map Prod.fst = s.tids

theorem toUInt32_createCall_pid (tid : UInt32) : (config.createCall tid).pid.toUInt32 = tid :=
  UInt32.toUInt32_toInt32 tid

/-- **The step lemma.** -/
theorem Attempted.step (h : Attempted es s s.phase) (hstep : Step config s e t) :
    Attempted (es ++ [e]) t t.phase := by
  cases hstep with
  | opened hp | listOne hp _ | listAll hp _ _ =>
      rw [hp] at h
      have hnone : attempts es = [] := h
      simp [Attempted, hnone]
  | openFailed | listFailed | listNone | createdNone => trivial
  | create hp | createFailed hp =>
      rw [hp] at h
      simpa [Attempted, toUInt32_createCall_pid] using h
  | start hp _ =>
      rw [hp] at h
      simpa [Attempted] using h
  | stop hstarted =>
      cases hp : s.phase with
      | opening | listing | creating _ | failed =>
          rw [hp] at hstarted
          exact hstarted.elim
      | head | polling _ _ | sleeping | removing _ | exited =>
          rw [hp] at h
          simpa [Attempted, hp] using h
  | enter hp _ | leave hp _ | poll hp | pollFailed hp | pass hp _ | giveUp hp _ | wake hp
  | remove hp | exit hp =>
      rw [hp] at h
      simpa [Attempted] using h

/-- **The run lemma.** -/
theorem attempted (hrun : Run (Step config) State.initial es s) : Attempted es s s.phase := by
  induction hrun with
  | nil => rfl
  | snoc _ hstep ih => exact ih.step hstep

/-- A watch that has started has tried each thread it has listed. -/
theorem attempts_of_started (hrun : Run (Step config) State.initial es s)
    (hstarted : s.phase.Started) : (attempts es).map Prod.fst = s.tids := by
  have h := attempted hrun
  cases hp : s.phase with
  | opening | listing | creating _ | failed =>
      rw [hp] at hstarted
      exact hstarted.elim
  | head | polling _ _ | sleeping | removing _ | exited =>
      rw [hp] at h
      exact h

/-! ## The reported threads -/

/-- The threads are those whose breakpoint was created, in order, and the breakpoints of
these threads are those that each pass polls. -/
structure ReportsWatched (es : List Event) (threads : List UInt32) (breakpoints : List Int32) :
    Prop where
  threads_eq : threads = (watched es).map Prod.fst
  breakpoints_eq : breakpoints = (watched es).map Prod.snd
  polled : ∀ pass ∈ passes es, pass.map Prod.fst = breakpoints

/-- The threads of a watch are those it watches when no `create` has failed. -/
theorem reportsWatched_iff (hrun : Run (Step config) State.initial es s)
    (hstarted : s.phase.Started) :
    ReportsWatched es s.tids s.breakpoints ↔ ∀ call, .createFailed call ∉ es := by
  have h := history hrun
  have hids : s.breakpoints = (watched es).map Prod.snd := by
    rw [h.breakpoints_eq, watched_map_snd]
  have htids : s.tids = (watched es).map Prod.fst ↔ ∀ call, .createFailed call ∉ es := by
    rw [← attempts_of_started hrun hstarted, watched_eq, ← forall_attempts_iff,
      ← map_fst_filterMap_eq_iff, eq_comm]
  constructor
  · intro hreports
    exact htids.mp hreports.threads_eq
  · intro hall
    exact ⟨htids.mpr hall, hids, fun pass hpass ↦ h.breakpoints_eq ▸ h.passes_ids pass hpass⟩

end Pwatch.Watch
