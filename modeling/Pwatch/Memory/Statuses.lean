import Pwatch.Blocking.Capacity
import Pwatch.Memory.Handlers

/-!
# Statuses of the memory endpoints

The README documents a status for each way a memory request can fail: 400 when it is
refused by a check, 502 when the driver fails, 500 when the worker does.  Both handlers
answer 502 for every error of `blocking::run`, so what is documented holds exactly where
the worker does not fail (`statuses_iff`).  The fates of a job are those its history in
the pool can show (`poolAnswers`), whatever other calls the pool has.
-/

namespace Pwatch.Memory

open Text Blocking

variable {κ β : Type}

/-! ## What is documented -/

/-- The statuses of a request: its job, if the checks let it pass, what becomes of the
job, and the answer. -/
structure Documented (job : Option (Job κ β)) (fate : Fate) (response : Response β) : Prop where
  rejected : job = none → ∃ message, response = .error 400 message
  /-- The driver reports a failure in time. -/
  driver_failed : ∀ j error, job = some j → fate = .finished → j.result = .error error →
    ∃ message, response = .error 502 message
  /-- The worker panics or takes too long, or there was no slot for it. -/
  worker_failed : ∀ j, job = some j → fate ≠ .finished → ∃ message, response = .error 500 message
  /-- The driver succeeds, and its result is delivered in time. -/
  ok_iff : (∃ body, response = .ok body) ↔
    ∃ j body, job = some j ∧ fate = .finished ∧ j.result = .ok body

/-- The job of a read request that passes `validate`. -/
def acceptedRead (device : Device) (request : ReadRequest) :
    Option (Job DriverCall ReadResponse) :=
  (validate request.pid request.addr request.size).toOption.map (readJob device request)

/-- The job of a write request that passes `decode_hex` and `validate`. -/
def acceptedWrite (device : Device) (request : WriteRequest) :
    Option (Job DriverCall WriteResponse) := do
  let data ← (decodeHex request.data).toOption
  let addr ← (validate request.pid request.addr data.length).toOption
  return writeJob device request data addr

/-! ## What the handlers answer -/

/-- The answer of either handler: 400 without a job, and else what `run` returns. -/
def Answered (job : Option (Job κ β)) (fate : Fate) (response : Response β) : Prop :=
  (job = none ∧ ∃ message, response = .error 400 message) ∨
    ∃ j, job = some j ∧ response = answer (run fate j).2

theorem answered_read (device : Device) (fate : Fate) (request : ReadRequest) :
    Answered (acceptedRead device request) fate (readMemory device fate (.ok request)).2 := by
  simp only [readMemory, acceptedRead]
  cases validate request.pid request.addr request.size with
  | error message => exact .inl ⟨rfl, message, rfl⟩
  | ok addr => exact .inr ⟨_, rfl, rfl⟩

theorem answered_write (device : Device) (fate : Fate) (request : WriteRequest) :
    Answered (acceptedWrite device request) fate (writeMemory device fate (.ok request)).2 := by
  simp only [writeMemory, acceptedWrite]
  cases decodeHex request.data with
  | error message => exact .inl ⟨rfl, message, rfl⟩
  | ok data =>
      simp only [Except.toOption, Option.bind_eq_bind, Option.bind_some]
      cases validate request.pid request.addr data.length with
      | error message => exact .inl ⟨rfl, message, rfl⟩
      | ok addr => exact .inr ⟨_, rfl, rfl⟩

/-- A worker that fails gives 502. -/
theorem answer_of_ne_finished {fate : Fate} (h : fate ≠ .finished) (j : Job κ β) :
    ∃ message, answer (run fate j).2 = .error 502 message := by
  cases fate with
  | finished => exact absurd rfl h
  | refused | timedOut made | panicked made error => exact ⟨_, rfl⟩

/-- **When the statuses are the documented ones**, for the answer of either handler. -/
theorem documented_iff {job : Option (Job κ β)} {fate : Fate} {response : Response β}
    (h : Answered job fate response) :
    Documented job fate response ↔ job = none ∨ fate = .finished := by
  rcases h with ⟨rfl, message, rfl⟩ | ⟨j, rfl, rfl⟩
  · refine iff_of_true ?_ (.inl rfl)
    exact {
      rejected := fun _ ↦ ⟨message, rfl⟩
      driver_failed := fun _ _ hjob ↦ by cases hjob
      worker_failed := fun _ hjob ↦ by cases hjob
      ok_iff := by simp }
  · by_cases hfate : fate = .finished
    · subst hfate
      refine iff_of_true ?_ (.inr rfl)
      cases hresult : j.result with
      | error error =>
          have hanswer : answer (run .finished j).2 = .error 502 error := by
            rw [run, hresult]
            rfl
          rw [hanswer]
          exact {
            rejected := fun hjob ↦ by cases hjob
            driver_failed := fun _ _ _ _ _ ↦ ⟨error, rfl⟩
            worker_failed := fun _ _ hne ↦ absurd rfl hne
            ok_iff := by simp [hresult] }
      | ok body =>
          have hanswer : answer (run .finished j).2 = .ok body := by
            rw [run, hresult]
            rfl
          rw [hanswer]
          exact {
            rejected := fun hjob ↦ by cases hjob
            driver_failed := by
              rintro _ error ⟨⟩ - herror
              rw [hresult] at herror
              cases herror
            worker_failed := fun _ _ hne ↦ absurd rfl hne
            ok_iff := by simp [hresult] }
    · refine iff_of_false (fun hdoc ↦ ?_) (by simp [hfate])
      obtain ⟨message, hbad⟩ := answer_of_ne_finished hfate j
      obtain ⟨message', hgood⟩ := hdoc.worker_failed j rfl hfate
      rw [hbad] at hgood
      cases hgood

/-! ## The pool behind a fate -/

/-- The history of the pool shows the fate of a call.  A timeout is the caller's alone. -/
def FateShown (es : List (Pool.Event β)) (r : Nat) : Fate → Prop
  | .refused => .refused r ∈ es
  | .finished => ∃ result, .returned r result ∈ es
  | .timedOut _ => True
  | .panicked _ error => .panicked r error ∈ es

/-- In every run of the pool, a call for the job is answered as `run` answers for a fate
that the history shows. -/
def PoolAnswers (κ β : Type) : Prop :=
  ∀ (es : List (Pool.Event β)) (s : Pool β) (r : Nat) (a : Except Failure β) (j : Job κ β),
    Run Pool.Step Pool.initial es s → (s.calls r).caller = .answered a →
      (∀ result, .returned r result ∈ es → j.result = result) →
        ∃ fate, FateShown es r fate ∧ a = (run fate j).2

theorem poolAnswers (κ β : Type) : PoolAnswers κ β := by
  intro es s r a j hrun hanswer hjob
  cases ((Pool.accounts hrun).calls r).answered a hanswer with
  | exhausted hrefused => exact ⟨.refused, hrefused, rfl⟩
  | timedOut => exact ⟨.timedOut 0, trivial, rfl⟩
  | @returned result hreturned =>
      exact ⟨.finished, ⟨result, hreturned⟩, by rw [run, hjob result hreturned]⟩
  | @panicked error hpanicked => exact ⟨.panicked 0 error, hpanicked, rfl⟩

/-! ## The result -/

/-- **When the statuses are the documented ones.**  For reads and writes alike: exactly
when the request is refused by a check or the worker does not fail, whatever the driver
returns.  A fate stands for any state of the pool and any behaviour of the worker. -/
theorem statuses_iff (device : Device) :
    (∀ fate request, Documented (acceptedRead device request) fate
        (readMemory device fate (.ok request)).2 ↔
      acceptedRead device request = none ∨ fate = .finished) ∧
    (∀ fate request, Documented (acceptedWrite device request) fate
        (writeMemory device fate (.ok request)).2 ↔
      acceptedWrite device request = none ∨ fate = .finished) ∧
    PoolAnswers DriverCall ReadResponse ∧ PoolAnswers DriverCall WriteResponse :=
  ⟨fun fate request ↦ documented_iff (answered_read device fate request),
    fun fate request ↦ documented_iff (answered_write device fate request),
    poolAnswers _ _, poolAnswers _ _⟩

/-- A driver that always succeeds. -/
def idleDevice : Device where
  opened := .ok ()
  readMemory _ _ size := .ok (Vector.replicate size 0)
  writeMemory _ _ _ := .ok ()

/-- A valid read without a free slot is answered 502, as if the driver had failed. -/
theorem not_documented :
    ¬ ∀ device fate request, Documented (acceptedRead device request) fate
      (readMemory device fate (.ok request)).2 := by
  intro h
  let request : ReadRequest := ⟨1, "10".toList, 16⟩
  have hdoc := h idleDevice .refused request
  have haccepted : (acceptedRead idleDevice request).isSome = true := by decide +kernel
  have hresponse : (readMemory idleDevice .refused (.ok request)).2 =
      .error 502 "blocking operation capacity exhausted".toList := by decide +kernel
  obtain ⟨j, hj⟩ := Option.isSome_iff_exists.mp haccepted
  obtain ⟨message, hgood⟩ := hdoc.worker_failed j hj (by decide)
  rw [hresponse] at hgood
  cases hgood

end Pwatch.Memory
