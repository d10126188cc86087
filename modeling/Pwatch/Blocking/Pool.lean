import Mathlib.Data.Finset.Card
import Mathlib.Logic.Function.Basic
import Pwatch.Blocking
import Pwatch.Runs.Basic

/-!
# The permits of the blocking pool

`blocking::run` with any number of callers at once.  A call takes a permit of the semaphore
or is refused, the closure that owns the permit goes to a worker, and the caller waits for
the worker or for three seconds.  Caller and closure go on without each other: a caller that
has stopped waiting changes nothing for its closure.

A closure that returns or unwinds drops what it has captured, its permit among it.  How long
anything takes is free, and so is what the jobs return.
-/

namespace Pwatch.Blocking

variable {α : Type}

/-- `MAX_IN_FLIGHT`. -/
def maxInFlight : Nat := 8

/-! ## States -/

/-- The closure handed to `spawn_blocking`. -/
inductive Task (α : Type)
  | /-- There is none. -/
    absent
  | /-- No worker has begun with it. -/
    spawned
  | running
  | returned (result : Except Str α)
  | panicked (error : Str)

/-- Where the call of `run` stands. -/
inductive Caller (α : Type)
  | idle
  | waiting
  | answered (answer : Except Failure α)
  | /-- The future was dropped while it waited. -/
    dropped

/-- A call of `run`. -/
structure Call (α : Type) where
  caller : Caller α
  task : Task α

/-- The semaphore and the calls.  A permit is named by the call whose closure owns it. -/
structure Pool (α : Type) where
  free : Nat
  permits : Finset Nat
  calls : Nat → Call α

namespace Pool

/-- The state `SLOTS` starts with. -/
def initial : Pool α where
  free := maxInFlight
  permits := ∅
  calls := fun _ ↦ ⟨.idle, .absent⟩

/-- The state in which a call has gone on. -/
def setCall (s : Pool α) (r : Nat) (caller : Caller α) (task : Task α) : Pool α :=
  { s with calls := Function.update s.calls r ⟨caller, task⟩ }

/-- `try_acquire_owned`, when a permit is free. -/
def acquire (s : Pool α) (r : Nat) : Pool α :=
  { s with free := s.free - 1, permits := insert r s.permits }

/-- The drop of a permit. -/
def release (s : Pool α) (r : Nat) : Pool α :=
  { s with free := s.free + 1, permits := s.permits.erase r }

section

variable (s : Pool α) (r : Nat) (caller : Caller α) (task : Task α)

@[simp] theorem setCall_self : (s.setCall r caller task).calls r = ⟨caller, task⟩ :=
  Function.update_self ..

@[simp] theorem setCall_of_ne {r' : Nat} (h : r' ≠ r) :
    (s.setCall r caller task).calls r' = s.calls r' := Function.update_of_ne h ..

@[simp] theorem setCall_free : (s.setCall r caller task).free = s.free := rfl

@[simp] theorem setCall_permits : (s.setCall r caller task).permits = s.permits := rfl

@[simp] theorem acquire_free : (s.acquire r).free = s.free - 1 := rfl

@[simp] theorem acquire_permits : (s.acquire r).permits = insert r s.permits := rfl

@[simp] theorem release_free : (s.release r).free = s.free + 1 := rfl

@[simp] theorem release_permits : (s.release r).permits = s.permits.erase r := rfl

end

/-! ## Steps -/

inductive Event (α : Type)
  | admitted (r : Nat)
  | /-- A call returns that the capacity is exhausted. -/
    refused (r : Nat)
  | /-- A worker begins with the job. -/
    executed (r : Nat)
  | /-- The job returns, and its permit is dropped. -/
    returned (r : Nat) (result : Except Str α)
  | /-- The job unwinds, and its permit is dropped. -/
    panicked (r : Nat) (error : Str)
  | answered (r : Nat) (answer : Except Failure α)
  | /-- Nobody waits for the call any more. -/
    dropped (r : Nat)

/-- One action of one caller or one worker. -/
inductive Step : Pool α → Event α → Pool α → Prop
  | accept {s : Pool α} {r : Nat} :
      (s.calls r).caller = .idle → 0 < s.free →
      Step s (.admitted r) ((s.acquire r).setCall r .waiting .spawned)
  | refuse {s : Pool α} {r : Nat} :
      (s.calls r).caller = .idle → s.free = 0 →
      Step s (.refused r) (s.setCall r (.answered (.error .exhausted)) (s.calls r).task)
  | execute {s : Pool α} {r : Nat} :
      (s.calls r).task = .spawned →
      Step s (.executed r) (s.setCall r (s.calls r).caller .running)
  | finish {s : Pool α} {r : Nat} {result : Except Str α} :
      (s.calls r).task = .running →
      Step s (.returned r result)
        ((s.release r).setCall r (s.calls r).caller (.returned result))
  | panic {s : Pool α} {r : Nat} {error : Str} :
      (s.calls r).task = .running →
      Step s (.panicked r error) ((s.release r).setCall r (s.calls r).caller (.panicked error))
  | answer {s : Pool α} {r : Nat} {result : Except Str α} :
      (s.calls r).caller = .waiting → (s.calls r).task = .returned result →
      Step s (.answered r (result.mapError .job))
        (s.setCall r (.answered (result.mapError .job)) (s.calls r).task)
  | answerPanic {s : Pool α} {r : Nat} {error : Str} :
      (s.calls r).caller = .waiting → (s.calls r).task = .panicked error →
      Step s (.answered r (.error (.panicked error)))
        (s.setCall r (.answered (.error (.panicked error))) (s.calls r).task)
  | timeOut {s : Pool α} {r : Nat} :
      (s.calls r).caller = .waiting →
      Step s (.answered r (.error .timedOut))
        (s.setCall r (.answered (.error .timedOut)) (s.calls r).task)
  | drop {s : Pool α} {r : Nat} :
      (s.calls r).caller = .waiting →
      Step s (.dropped r) (s.setCall r .dropped (s.calls r).task)

/-! ## What a history says -/

/-- The permit dropped at an event. -/
@[simp] def Event.released : Event α → Option Nat
  | .returned r _ | .panicked r _ => some r
  | _ => none

/-- The permits that were dropped, in order. -/
def releases (es : List (Event α)) : List Nat := es.filterMap Event.released

@[simp] theorem releases_snoc (es : List (Event α)) (e : Event α) :
    releases (es ++ [e]) = releases es ++ e.released.toList :=
  filterMap_snoc _ es e

end Pool

end Pwatch.Blocking
