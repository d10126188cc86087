import Pwatch.Blocking.Pool

/-!
# Blocking capacity is conserved

A permit is owned by the closure of an admitted call until that closure ends, whatever
becomes of the caller.  `Accounts` ties the counter of the semaphore, the permits and the
closures to the history; every step keeps it.
-/

namespace Pwatch.Blocking

variable {α : Type}

/-- The closure was spawned and has not ended. -/
def Task.unfinished : Task α → Bool
  | .spawned | .running => true
  | .absent | .returned _ | .panicked _ => false

/-- The closure has returned or unwound. -/
def Task.ended : Task α → Bool
  | .returned _ | .panicked _ => true
  | .absent | .spawned | .running => false

namespace Pool

variable {es : List (Event α)} {e : Event α} {s t : Pool α} {r : Nat} {c : Call α}

/-- The call an event is about. -/
def Event.call : Event α → Nat
  | .admitted r | .refused r | .executed r | .returned r _ | .panicked r _ | .answered r _
  | .dropped r => r

/-! ## One call -/

/-- What a call may be answered with. -/
inductive AnswerOk (es : List (Event α)) (r : Nat) : Except Failure α → Prop
  | exhausted : .refused r ∈ es → AnswerOk es r (.error .exhausted)
  | timedOut : AnswerOk es r (.error .timedOut)
  | returned {result : Except Str α} :
      .returned r result ∈ es → AnswerOk es r (result.mapError .job)
  | panicked {error : Str} : .panicked r error ∈ es → AnswerOk es r (.error (.panicked error))

theorem AnswerOk.snoc {answer : Except Failure α} (h : AnswerOk es r answer) (e : Event α) :
    AnswerOk (es ++ [e]) r answer := by
  cases h with
  | exhausted h => exact .exhausted (List.mem_append_left _ h)
  | timedOut => exact .timedOut
  | returned h => exact .returned (List.mem_append_left _ h)
  | panicked h => exact .panicked (List.mem_append_left _ h)

/-- What the history says about a call. -/
structure CallHistory (es : List (Event α)) (r : Nat) (c : Call α) : Prop where
  /-- The permit is taken before anything else. -/
  idle : c.caller = .idle → c.task = .absent
  admitted : .admitted r ∈ es ↔ c.task ≠ .absent
  executed : .executed r ∈ es → c.task ≠ .absent
  refused : .refused r ∈ es → c.caller = .answered (.error .exhausted) ∧ c.task = .absent
  /-- A closure that has ended has dropped its permit once, and no other has. -/
  released : (releases es).count r = c.task.ended.toNat
  returned : ∀ result, c.task = .returned result → .returned r result ∈ es
  panicked : ∀ error, c.task = .panicked error → .panicked r error ∈ es
  answered : ∀ answer, c.caller = .answered answer → AnswerOk es r answer

theorem callHistory_initial : CallHistory ([] : List (Event α)) r ⟨.idle, .absent⟩ := by
  constructor <;> simp [releases, Task.ended]

/-- Events of other calls. -/
theorem CallHistory.frame (h : CallHistory es r c) (he : e.call ≠ r) :
    CallHistory (es ++ [e]) r c := by
  have hmem : ∀ {e'}, e'.call = r → (e' ∈ es ++ [e] ↔ e' ∈ es) := fun {e'} he' ↦ by
    rw [List.mem_append, List.mem_singleton, or_iff_left]
    rintro rfl
    exact he he'
  have hreleased : r ∉ e.released.toList := by
    cases e with
    | returned r' | panicked r' => simpa [Event.call, eq_comm] using he
    | _ => simp
  constructor
  case idle => exact h.idle
  case admitted => rw [hmem rfl]; exact h.admitted
  case executed => rw [hmem rfl]; exact h.executed
  case refused => rw [hmem rfl]; exact h.refused
  case released =>
    rw [releases_snoc, List.count_append, List.count_eq_zero_of_not_mem hreleased, Nat.add_zero]
    exact h.released
  case returned => exact fun result hr ↦ (hmem rfl).mpr (h.returned result hr)
  case panicked => exact fun error hr ↦ (hmem rfl).mpr (h.panicked error hr)
  case answered => exact fun answer ha ↦ (h.answered answer ha).snoc e

/-- A caller that goes on while its closure does nothing. -/
theorem CallHistory.callerStep (h : CallHistory es r c) {caller : Caller α}
    (hadmitted : e ≠ .admitted r) (hexecuted : e ≠ .executed r) (hreleased : e.released = none)
    (hcaller : caller ≠ .idle)
    (hrefused : .refused r ∈ es ++ [e] →
      caller = .answered (.error .exhausted) ∧ c.task = .absent)
    (hanswered : ∀ answer, caller = .answered answer → AnswerOk (es ++ [e]) r answer) :
    CallHistory (es ++ [e]) r ⟨caller, c.task⟩ where
  idle hidle := absurd hidle hcaller
  admitted := by
    rw [List.mem_append, List.mem_singleton, or_iff_left hadmitted.symm]
    exact h.admitted
  executed hmem := by
    rw [List.mem_append, List.mem_singleton, or_iff_left hexecuted.symm] at hmem
    exact h.executed hmem
  refused := hrefused
  released := by
    rw [releases_snoc, hreleased, Option.toList_none, List.append_nil]
    exact h.released
  returned result htask := List.mem_append_left _ (h.returned result htask)
  panicked error htask := List.mem_append_left _ (h.panicked error htask)
  answered := hanswered

/-- A closure that goes on while its caller does nothing. -/
theorem CallHistory.taskStep (h : CallHistory es r c) {task : Task α}
    (hbegun : c.task ≠ .absent) (htask : task ≠ .absent) (hadmitted : e ≠ .admitted r)
    (hrefused : e ≠ .refused r) (hreleased : (releases (es ++ [e])).count r = task.ended.toNat)
    (hreturned : ∀ result, task = .returned result → e = .returned r result)
    (hpanicked : ∀ error, task = .panicked error → e = .panicked r error) :
    CallHistory (es ++ [e]) r ⟨c.caller, task⟩ where
  idle hidle := absurd (h.idle hidle) hbegun
  admitted := by
    rw [List.mem_append, List.mem_singleton, or_iff_left hadmitted.symm, h.admitted]
    exact iff_of_true hbegun htask
  executed _ := htask
  refused hmem := by
    rw [List.mem_append, List.mem_singleton, or_iff_left hrefused.symm] at hmem
    exact absurd (h.refused hmem).2 hbegun
  released := hreleased
  returned result heq := by simp [hreturned result heq]
  panicked error heq := by simp [hpanicked error heq]
  answered answer heq := (h.answered answer heq).snoc e

/-- Who waits was not refused, and an event that refuses nobody changes nothing about that. -/
theorem CallHistory.not_refused (h : CallHistory es r c) (hcaller : c.caller = .waiting)
    (he : e ≠ .refused r) : .refused r ∉ es ++ [e] := by
  rw [List.mem_append, List.mem_singleton, or_iff_left he.symm]
  intro hmem
  cases hcaller.symm.trans (h.refused hmem).1

/-- What a step does to the call it is about. -/
theorem CallHistory.step (h : CallHistory es e.call (s.calls e.call)) (hs : Step s e t) :
    CallHistory (es ++ [e]) e.call (t.calls e.call) := by
  cases hs with
  | @accept r hcaller hfree =>
      have habsent : (s.calls r).task = .absent := h.idle hcaller
      simp only [Event.call, setCall_self] at h ⊢
      exact {
        idle := fun hidle ↦ by cases hidle
        admitted := by simp
        executed := by simp
        refused := fun hmem ↦ by
          rw [List.mem_append, List.mem_singleton, or_iff_left (by simp)] at hmem
          cases hcaller.symm.trans (h.refused hmem).1
        released := by simp [h.released, habsent, Task.ended]
        returned := fun _ htask ↦ by cases htask
        panicked := fun _ htask ↦ by cases htask
        answered := fun _ hanswer ↦ by cases hanswer }
  | @refuse r hcaller hfree =>
      have habsent : (s.calls r).task = .absent := h.idle hcaller
      simp only [Event.call, setCall_self] at h ⊢
      refine h.callerStep (by simp) (by simp) rfl (by simp) (fun _ ↦ ⟨rfl, habsent⟩) ?_
      rintro answer ⟨⟩
      exact .exhausted (by simp)
  | @execute r htask =>
      simp only [Event.call, setCall_self] at h ⊢
      refine h.taskStep (by simp [htask]) (by simp) (by simp) (by simp) ?_
        (fun _ heq ↦ by cases heq) (fun _ heq ↦ by cases heq)
      simp [h.released, htask, Task.ended]
  | @finish r result htask =>
      simp only [Event.call, setCall_self] at h ⊢
      refine h.taskStep (by simp [htask]) (by simp) (by simp) (by simp) ?_ ?_
        (fun _ heq ↦ by cases heq)
      · simp [h.released, htask, Task.ended]
      · rintro result ⟨⟩
        rfl
  | @panic r error htask =>
      simp only [Event.call, setCall_self] at h ⊢
      refine h.taskStep (by simp [htask]) (by simp) (by simp) (by simp) ?_
        (fun _ heq ↦ by cases heq) ?_
      · simp [h.released, htask, Task.ended]
      · rintro error ⟨⟩
        rfl
  | @answer r result hcaller htask =>
      simp only [Event.call, setCall_self] at h ⊢
      refine h.callerStep (by simp) (by simp) rfl (by simp)
        (fun hmem ↦ absurd hmem (h.not_refused hcaller (by simp))) ?_
      rintro answer ⟨⟩
      exact (AnswerOk.returned (h.returned result htask)).snoc _
  | @answerPanic r error hcaller htask =>
      simp only [Event.call, setCall_self] at h ⊢
      refine h.callerStep (by simp) (by simp) rfl (by simp)
        (fun hmem ↦ absurd hmem (h.not_refused hcaller (by simp))) ?_
      rintro answer ⟨⟩
      exact (AnswerOk.panicked (h.panicked error htask)).snoc _
  | @timeOut r hcaller =>
      simp only [Event.call, setCall_self] at h ⊢
      refine h.callerStep (by simp) (by simp) rfl (by simp)
        (fun hmem ↦ absurd hmem (h.not_refused hcaller (by simp))) ?_
      rintro answer ⟨⟩
      exact .timedOut
  | @drop r hcaller =>
      simp only [Event.call, setCall_self] at h ⊢
      exact h.callerStep (by simp) (by simp) rfl (by simp)
        (fun hmem ↦ absurd hmem (h.not_refused hcaller (by simp))) (fun _ heq ↦ by cases heq)

/-! ## All calls -/

/-- What the history says about the pool. -/
structure Accounts (es : List (Event α)) (s : Pool α) : Prop where
  balance : s.free + s.permits.card = maxInFlight
  /-- The permits are owned by the closures that have not ended. -/
  held : ∀ r, r ∈ s.permits ↔ (s.calls r).task.unfinished = true
  calls : ∀ r, CallHistory es r (s.calls r)

theorem accounts_initial : Accounts [] (initial : Pool α) where
  balance := rfl
  held r := by simp [initial, Task.unfinished]
  calls _ := callHistory_initial

/-- A step leaves the other calls alone. -/
theorem Step.calls_of_ne (hs : Step s e t) (hr : r ≠ e.call) : t.calls r = s.calls r := by
  cases hs <;> exact setCall_of_ne _ _ _ _ hr

/-- A call has its permit until its closure ends. -/
theorem Accounts.held_step (h : Accounts es s) (hs : Step s e t) :
    r ∈ t.permits ↔ (t.calls r).task.unfinished = true := by
  by_cases hr : r = e.call
  · subst hr
    cases hs with
    | accept => simp [Task.unfinished, Event.call]
    | finish htask | panic htask => simp [Task.unfinished, Event.call]
    | execute htask =>
        have hmem := (h.held _).mpr (congrArg Task.unfinished htask)
        simpa [Task.unfinished, Event.call] using hmem
    | refuse | answer | answerPanic | timeOut | drop => simpa [Event.call] using h.held _
  · rw [hs.calls_of_ne hr, ← h.held r]
    cases hs with
    | accept =>
        rw [setCall_permits, acquire_permits, Finset.mem_insert]
        exact or_iff_right hr
    | finish htask | panic htask =>
        rw [setCall_permits, release_permits, Finset.mem_erase]
        exact and_iff_right hr
    | refuse | execute | answer | answerPanic | timeOut | drop => rfl

/-- No permit comes or goes but with a call. -/
theorem Accounts.balance_step (h : Accounts es s) (hs : Step s e t) :
    t.free + t.permits.card = maxInFlight := by
  have hbalance := h.balance
  cases hs with
  | @accept r hcaller hfree =>
      have hnot : r ∉ s.permits := by
        rw [h.held, (h.calls r).idle hcaller]
        simp [Task.unfinished]
      rw [setCall_free, setCall_permits, acquire_free, acquire_permits,
        Finset.card_insert_of_notMem hnot]
      omega
  | @finish r result htask | @panic r error htask =>
      have hmem : r ∈ s.permits := (h.held r).mpr (congrArg Task.unfinished htask)
      have hpos := Finset.card_pos.mpr ⟨r, hmem⟩
      rw [setCall_free, setCall_permits, release_free, release_permits,
        Finset.card_erase_of_mem hmem]
      omega
  | refuse | execute | answer | answerPanic | timeOut | drop => exact hbalance

/-- **The step lemma.** -/
theorem Accounts.step (h : Accounts es s) (hs : Step s e t) : Accounts (es ++ [e]) t where
  balance := h.balance_step hs
  held _ := h.held_step hs
  calls r := by
    by_cases hr : r = e.call
    · subst hr
      exact (h.calls _).step hs
    · rw [hs.calls_of_ne hr]
      exact (h.calls r).frame (Ne.symm hr)

/-- **The run lemma.** -/
theorem accounts (h : Run Step initial es s) : Accounts es s :=
  h.invariant accounts_initial fun _ _ _ _ _ ih hs ↦ ih.step hs

/-! ## Reading the accounts -/

/-- The permits are those of the admitted calls whose closure has not dropped them. -/
theorem Accounts.mem_permits (h : Accounts es s) :
    r ∈ s.permits ↔ .admitted r ∈ es ∧ r ∉ releases es := by
  rw [h.held, (h.calls r).admitted, ← List.count_eq_zero, (h.calls r).released]
  cases (s.calls r).task <;> simp [Task.unfinished, Task.ended]

/-- An admitted call drops its permit once, when its closure ends. -/
theorem Accounts.count_releases (h : Accounts es s) (hadmitted : .admitted r ∈ es) :
    (releases es).count r = if r ∈ s.permits then 0 else 1 := by
  rw [(h.calls r).admitted] at hadmitted
  simp only [h.held, (h.calls r).released]
  cases htask : (s.calls r).task with
  | absent => exact absurd htask hadmitted
  | _ => rfl

/-- Every number of free permits is a number of closures that have not ended. -/
theorem Accounts.free_eq_zero_iff (h : Accounts es s) : s.free = 0 ↔ s.permits.card = 8 := by
  have hbalance : s.free + s.permits.card = 8 := h.balance
  omega

/-- **Blocking capacity.**  In every state of every run:

* eight permits are free or held, and those that are held belong to the admitted calls whose
  job has not ended, one each;
* a call is refused exactly when eight jobs have not ended, and a refused call never executes
  its job;
* an answer, a timeout among them, releases nothing, and an admitted call releases its permit
  once, with the end of its job. -/
theorem capacity_conserved (h : Run Step initial es s) :
    (s.free + s.permits.card = 8 ∧ s.permits.card ≤ 8 ∧
      ∀ r, r ∈ s.permits ↔ .admitted r ∈ es ∧ r ∉ releases es) ∧
    (∀ r, (s.calls r).caller = .idle →
      ((∃ t, Step s (.refused r) t) ↔ s.permits.card = 8) ∧
      ((∃ t, Step s (.admitted r) t) ↔ s.permits.card < 8)) ∧
    (∀ r, .refused r ∈ es → (s.calls r).caller = .answered (.error .exhausted) ∧
      .admitted r ∉ es ∧ .executed r ∉ es) ∧
    (∀ r answer t, Step s (.answered r answer) t → t.free = s.free ∧ t.permits = s.permits) ∧
    ∀ r, .admitted r ∈ es → (releases es).count r = if r ∈ s.permits then 0 else 1 := by
  have acc := accounts h
  have hbalance : s.free + s.permits.card = 8 := acc.balance
  refine ⟨⟨hbalance, by omega, fun r ↦ acc.mem_permits⟩, fun r hidle ↦ ⟨?_, ?_⟩,
    fun r hrefused ↦ ?_, ?_, fun r ↦ acc.count_releases⟩
  · rw [← acc.free_eq_zero_iff]
    constructor
    · rintro ⟨t, hs⟩
      cases hs with
      | refuse _ hfree => exact hfree
    · exact fun hfree ↦ ⟨_, .refuse hidle hfree⟩
  · constructor
    · rintro ⟨t, hs⟩
      cases hs with
      | accept _ hfree => omega
    · exact fun hcard ↦ ⟨_, .accept hidle (by omega)⟩
  · obtain ⟨hcaller, habsent⟩ := (acc.calls r).refused hrefused
    refine ⟨hcaller, fun hadmitted ↦ ?_, fun hexecuted ↦ ?_⟩
    · exact (acc.calls r).admitted.mp hadmitted habsent
    · exact (acc.calls r).executed hexecuted habsent
  · rintro r answer t hs
    cases hs <;> exact ⟨rfl, rfl⟩

/-- A job that returns after its caller was told of a timeout. -/
theorem capacity_conserved_timedOut :
    ∃ s : Pool Nat, Run Step initial [.admitted 0, .executed 0, .answered 0 (.error .timedOut),
      .returned 0 (.ok 5)] s ∧ s.free + s.permits.card = 8 ∧
        (releases [.admitted 0, .executed 0, .answered 0 (.error .timedOut),
          .returned 0 (.ok 5)] : List Nat).count 0 = if 0 ∈ s.permits then 0 else 1 := by
  have hrun : ∃ s : Pool Nat, Run Step initial [.admitted 0, .executed 0,
      .answered 0 (.error .timedOut), .returned 0 (.ok 5)] s :=
    ⟨_, .cons (.accept rfl (by decide)) (.cons (.execute (by simp))
      (.cons (.timeOut (by simp)) (.cons (.finish (by simp)) .nil)))⟩
  obtain ⟨s, hs⟩ := hrun
  obtain ⟨⟨hbalance, -, -⟩, -, -, -, hreleases⟩ := capacity_conserved hs
  exact ⟨s, hs, hbalance, hreleases 0 (by simp)⟩

end Pool

end Pwatch.Blocking
