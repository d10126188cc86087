import Pwatch.Text.Basic

/-!
# The blocking pool

`blocking::run` as its caller sees it.  The job is a closure over calls to the outside;
it is executed or refused as a whole, and its caller gets what it returns, or one of the
errors of the pool.  A job whose caller was told of a timeout is detached and goes on.
-/

namespace Pwatch.Blocking

/-- Why `run` returns an error. -/
inductive Failure
  | /-- No slot was free; the job was never started. -/
    exhausted
  | /-- The worker has panicked. -/
    panicked (error : Str)
  | /-- The job is detached. -/
    timedOut
  | /-- The error the job returned. -/
    job (message : Str)
deriving DecidableEq, Repr

/-- The text of the error. -/
def Failure.message : Failure → Str
  | .exhausted => "blocking operation capacity exhausted".toList
  | .panicked error => "blocking worker failed: ".toList ++ error
  | .timedOut => "blocking operation timed out after 3s".toList
  | .job message => message

/-- What a job does when nothing stops it: its calls, and what it returns. -/
structure Job (κ α : Type) where
  calls : List κ
  result : Except Str α

/-- What becomes of a job. -/
inductive Fate
  | refused
  | finished
  | /-- Its caller has stopped waiting; it makes so many calls in all. -/
    timedOut (made : Nat)
  | /-- It panics after so many calls. -/
    panicked (made : Nat) (error : Str)
deriving DecidableEq, Repr

variable {κ α : Type}

/-- `run`: the calls that are made for the job, now or later, and what its caller gets. -/
def run (fate : Fate) (job : Job κ α) : List κ × Except Failure α :=
  match fate with
  | .refused => ([], .error .exhausted)
  | .finished => (job.calls, job.result.mapError .job)
  | .timedOut made => (job.calls.take made, .error .timedOut)
  | .panicked made error => (job.calls.take made, .error (.panicked error))

/-- Nobody makes a call that is not in the job. -/
theorem run_calls_subset (fate : Fate) (job : Job κ α) : (run fate job).1 ⊆ job.calls := by
  cases fate with
  | refused => exact List.nil_subset _
  | finished => exact List.Subset.refl _
  | timedOut made | panicked made error => exact List.take_subset made job.calls

/-- What the caller gets is what the job returns. -/
theorem result_of_run_eq_ok {fate : Fate} {job : Job κ α} {value : α}
    (h : (run fate job).2 = .ok value) : job.result = .ok value := by
  cases fate with
  | refused | timedOut made | panicked made error => cases h
  | finished =>
      cases hr : job.result with
      | error message => simp [run, hr, Except.mapError] at h
      | ok value' =>
          rw [run, hr] at h
          cases h
          rfl

end Pwatch.Blocking
