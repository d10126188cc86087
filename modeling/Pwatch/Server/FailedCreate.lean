import Pwatch.Server.Creates
import Pwatch.Server.Progress
import Pwatch.Watch.Lifecycle

/-!
# What a failed create leaves behind

An error other than the timeout is the last word on a create: neither the registry nor
the driver knows it.  After a timeout the job is detached and goes on, so the breakpoint
may still appear; it does not when the job itself comes to an error.
-/

namespace Pwatch.Server

open Watch Maps

variable {arch : Arch} {es : List Event} {s : Registry} {r : Nat}

/-! ## Traces of a create -/

/-- The driver holds a breakpoint that was created for the request. -/
def Installed (r : Nat) (es : List Event) : Prop :=
  ∃ id, (removedIds (watchEvents r es)).count id < (createdIds (watchEvents r es)).count id

/-- The registry has no breakpoint of the request. -/
def Unregistered (r : Nat) (s : Registry) : Prop :=
  ∀ id entry, s.breakpoints.lookup id = some entry → entry.watch ≠ r

/-- A create that has left nothing behind. -/
def LeavesNothing (r : Nat) (es : List Event) (s : Registry) : Prop :=
  Unregistered r s ∧ ¬ Installed r es

theorem not_installed_of_createdIds_eq_nil (h : createdIds (watchEvents r es) = []) :
    ¬ Installed r es := by
  rintro ⟨id, hlt⟩
  rw [h, List.count_nil] at hlt
  exact Nat.not_lt_zero _ hlt

/-- A create that is not done well is not in the registry. -/
theorem Creates.unregistered (h : Creates es s)
    (hp : ∀ view, (s.creates r).phase ≠ .done (.ok view)) : Unregistered r s := by
  rintro id entry hentry rfl
  exact hp entry.view (h.entry_done id entry hentry)

/-- Before `fetch_add` nothing is there. -/
theorem Creates.leavesNothing_of_pending (h : Creates es s)
    (hp : (s.creates r).phase.Pending) : LeavesNothing r es s := by
  constructor
  · refine h.unregistered fun view hdone ↦ ?_
    rw [hdone] at hp
    exact hp
  · have hevents := (h.create r).unlaunched ((h.create r).pending hp)
    exact not_installed_of_createdIds_eq_nil (by rw [hevents]; rfl)

/-- A job that has come to an error has left nothing. -/
theorem Creates.leavesNothing_of_error (h : Creates es s) {message : Str}
    (hp : (s.creates r).phase = .done (.error message)) : LeavesNothing r es s := by
  constructor
  · exact h.unregistered fun view hdone ↦ by simp [hp] at hdone
  · refine not_installed_of_createdIds_eq_nil ?_
    cases hl : (s.creates r).launched with
    | none => rw [(h.create r).unlaunched hl]; rfl
    | some l =>
        -- the watch has failed, which it does without a breakpoint
        have hhistory := (history ((h.create r).watch_run l hl)).phaseHistory
        rw [(h.create r).failed message l hp hl] at hhistory
        exact hhistory.1

/-! ## Failed creates -/

/-- **A failed create.**  A create that is answered with an error leaves nothing behind, unless
the error is the timeout and its job has not come to an error. -/
theorem failedCreate (hrun : Run (Step arch) Registry.initial es s)
    {failure : Blocking.Failure} (hanswered : .answered r (.error failure) ∈ es)
    (hfailure : failure ≠ .timedOut ∨ ∃ message, (s.creates r).phase = .done (.error message)) :
    LeavesNothing r es s := by
  have h := creates hrun
  rcases hfailure with hne | ⟨message, hp⟩
  · have hreply := (h.create r).reply_ok
    rw [reply_of_answered hrun hanswered] at hreply
    cases failure with
    | exhausted =>
        have hidle : (s.creates r).phase = .idle := hreply
        exact h.leavesNothing_of_pending (by rw [hidle]; trivial)
    | panicked error => exact hreply.elim
    | timedOut => exact absurd rfl hne
    | job message => exact h.leavesNothing_of_error hreply
  · exact h.leavesNothing_of_error hp

/-- A create of the type `q`. -/
theorem failedCreate_type :
    ∃ es s, Run (Step .aarch64) Registry.initial es s ∧
      .answered 0 (.error (.job "invalid watchpoint type: q".toList)) ∈ es ∧
        LeavesNothing 0 es s := by
  let request : CreateBreakpointRequest := ⟨7, "q".toList, "0x40".toList, false, none⟩
  let message : Str := "invalid watchpoint type: q".toList
  let s₁ := Registry.initial.setCreate 0 ⟨.admitted request, none, none⟩
  let s₂ := s₁.setCreate 0 ⟨.done (.error message), none, none⟩
  have hadmit : Step .aarch64 Registry.initial (.admitted 0 request) s₁ := .accept rfl rfl
  have hcheck : Step .aarch64 s₁ (.went 0) s₂ :=
    .checkTypeError (show (s₁.creates 0).phase = .admitted request from rfl) rfl
  have hanswer : Step .aarch64 s₂ (.answered 0 (.error (.job message))) _ := .answerError rfl rfl
  have hrun := Run.cons hadmit (Run.cons hcheck (.single hanswer))
  have hanswered : .answered 0 (.error (.job message)) ∈
      [Event.admitted 0 request, .went 0, .answered 0 (.error (.job message))] := by simp
  exact ⟨_, _, hrun, hanswered, failedCreate hrun hanswered (.inl (by simp))⟩

/-- A create that has timed out can register its breakpoint afterwards. -/
theorem not_leavesNothing_timedOut :
    ¬ ∀ (es : List Event) (s : Registry) (r : Nat) (failure : Blocking.Failure),
      Run (Step .aarch64) Registry.initial es s → .answered r (.error failure) ∈ es →
        LeavesNothing r es s := by
  intro hclaim
  let request : CreateBreakpointRequest := ⟨7, "w4".toList, "0x40".toList, false, none⟩
  let resolved := resolvedAddress request 0x40 none
  let config := watchConfig request (2, 4) resolved none
  let view := newView 1 config resolved [7] 0
  let timedOut : Reply := .error .timedOut
  let s₁ := Registry.initial.setCreate 0 ⟨.admitted request, none, none⟩
  let s₂ := s₁.setCreate 0 ⟨.admitted request, none, some timedOut⟩
  have hadmit : Step .aarch64 Registry.initial (.admitted 0 request) s₁ := .accept rfl rfl
  have hanswer : Step .aarch64 s₁ (.answered 0 timedOut) s₂ := .timeOut (by simp [s₁]) rfl
  have hcreate : Run (Step .aarch64) s₂ _ (afterRegister s₂ 0 config 5 view (some timedOut)) :=
    run_create (Registry.setCreate_creates_self ..) rfl
      (show watchpointType request = .ok (2, 4) from rfl)
      (show parsedFilter .aarch64 request = .ok none from rfl) 0x40 none 7 5 0
  have hrun := Run.cons hadmit (Run.cons hanswer hcreate)
  obtain ⟨hunregistered, -⟩ := hclaim _ _ 0 .timedOut hrun (.tail _ (.head _))
  exact hunregistered 1 ⟨view, 0⟩ (AList.lookup_insert _) rfl

end Pwatch.Server
