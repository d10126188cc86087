import Pwatch.Runs.Basic
import Pwatch.Watch.Sample

/-!
# A watch

`start_driver_watch` of `src/watch.rs` as one machine: first the calls it makes before
it returns, then the loop of the thread it spawns.  The driver, procfs and the caller
of `stop` are the environment, so what their calls return and when `stop` happens is
free.  The events carry what crosses the boundary: the arguments of a `create`, the
samples handed to `on_hit` for a poll, the text of an error.
-/

namespace Pwatch.Watch

open Driver Pwatch.Filter

/-- `WatchConfig`. -/
structure WatchConfig where
  pid : UInt32
  thread : Bool
  typeName : Str
  addrText : Str
  ty : UInt32
  addr : UInt64
  len : UInt64
  backtrace : Bool
  filter : Option RegFilter
deriving DecidableEq, Repr

/-! ## Watchpoint types -/

/-- `sys::bindings::HW_BREAKPOINT_R`. -/
def hwBreakpointR : UInt32 := 1

/-- `sys::bindings::HW_BREAKPOINT_W`. -/
def hwBreakpointW : UInt32 := 2

/-- `sys::bindings::HW_BREAKPOINT_RW`. -/
def hwBreakpointRw : UInt32 := 3

/-- `sys::bindings::HW_BREAKPOINT_X`. -/
def hwBreakpointX : UInt32 := 4

/-- `parse_len`.  Each `HW_BREAKPOINT_LEN_n` is `n`. -/
def parseLen (s : Str) : Option UInt32 :=
  match s with
  | ['1'] => some 1
  | ['2'] => some 2
  | ['4'] => some 4
  | ['8'] => some 8
  | [] => some 1
  | _ => none

/-- `parse_watchpoint_type`.  A `c_long` has eight bytes on both targets. -/
def parseWatchpointType (s : Str) : Option (UInt32 × UInt32) :=
  match Text.stripPrefix ['r', 'w'] s, Text.stripPrefix ['r'] s, Text.stripPrefix ['w'] s with
  | some s, _, _ => (parseLen s).map (hwBreakpointRw, ·)
  | none, some s, _ => (parseLen s).map (hwBreakpointR, ·)
  | none, none, some s => (parseLen s).map (hwBreakpointW, ·)
  | none, none, none => if s = ['x'] then some (hwBreakpointX, 8) else none

/-! ## The arguments of `create` -/

/-- The arguments of `Driver::create`. -/
structure CreateCall where
  addr : UInt64
  typ : Int32
  len : Int32
  pid : Int32
  cap : Int32
  flags : UInt32
deriving DecidableEq, Repr

namespace WatchConfig

def driverType (config : WatchConfig) : Int32 :=
  if config.ty = hwBreakpointX then bpExecute
  else if config.ty = hwBreakpointR then bpRead
  else if config.ty = hwBreakpointW then bpWrite
  else bpReadwrite

def driverLen (config : WatchConfig) : Int32 :=
  if config.driverType = bpExecute then 4
  else if config.len = 0 then 1
  else config.len.toUInt32.toInt32

def driverFlags (config : WatchConfig) : UInt32 :=
  if config.backtrace then bpFDetail ||| bpFBacktrace else bpFDetail

/-- The call that creates the breakpoint of one thread. -/
def createCall (config : WatchConfig) (tid : UInt32) : CreateCall where
  addr := config.addr
  typ := config.driverType
  len := config.driverLen
  pid := tid.toInt32
  cap := 256
  flags := config.driverFlags

end WatchConfig

/-! ## States -/

/-- Where a watch stands. -/
inductive Phase
  | /-- In `Driver::open`. -/
    opening
  | /-- Collecting the thread ids. -/
    listing
  | /-- In the creation loop, with the threads that are left. -/
    creating (todo : List UInt32)
  | /-- `start_driver_watch` has returned an error. -/
    failed
  | /-- The thread is about to load the cancel flag. -/
    head
  | /-- In a pass over the breakpoints, with those that are left to poll. -/
    polling (pending : List Int32) (pollFailed : Nat)
  | sleeping
  | /-- Behind the loop, with the breakpoints that are left to remove. -/
    removing (pending : List Int32)
  | exited
deriving DecidableEq, Repr

/-- `start_driver_watch` has returned and not failed. -/
def Phase.Started : Phase → Prop
  | .opening | .listing | .creating _ | .failed => False
  | _ => True

/-- The thread has not left its loop. -/
def Phase.InLoop : Phase → Prop
  | .head | .polling _ _ | .sleeping => True
  | _ => False

/-- The thread has left its loop. -/
def Phase.LeftLoop : Phase → Prop
  | .removing _ | .exited => True
  | _ => False

/-- The variables of `start_driver_watch` and its thread. -/
structure State where
  tids : List UInt32
  breakpoints : List Int32
  phase : Phase
  consecutiveErrors : Nat
  cancel : Bool
deriving DecidableEq, Repr

/-- The state at the call. -/
def State.initial : State where
  tids := []
  breakpoints := []
  phase := .opening
  consecutiveErrors := 0
  cancel := false

inductive Event
  | opened
  | listed (tids : List UInt32)
  | created (call : CreateCall) (id : Int32)
  | createFailed (call : CreateCall)
  | /-- `start_driver_watch` returns an error. -/
    failed (message : Str)
  | /-- `start_driver_watch` returns with the thread running. -/
    started
  | /-- `RunningWatch::stop`. -/
    stop
  | /-- The thread loads the cancel flag at the head of its loop. -/
    loaded (cancelled : Bool)
  | /-- `Driver::hits` has returned hits, and `on_hit` was called with the samples. -/
    polled (id : Int32) (calls : List SampleData)
  | pollFailed (id : Int32)
  | passed
  | woken
  | removed (id : Int32)
  | exited
deriving DecidableEq

/-! ## Steps -/

/-- The counter after a pass. -/
def errorsAfter (s : State) (pollFailed : Nat) : Nat :=
  if pollFailed = s.breakpoints.length then s.consecutiveErrors + 1 else 0

variable (config : WatchConfig)

/-- One action of a watch. -/
inductive Step : State → Event → State → Prop
  | opened {s : State} : s.phase = .opening → Step s .opened { s with phase := .listing }
  | openFailed {s : State} {message : Str} :
      s.phase = .opening → Step s (.failed message) { s with phase := .failed }
  | /-- A watch on one thread asks nobody for the threads. -/
    listOne {s : State} :
      s.phase = .listing → config.thread = true →
      Step s (.listed [config.pid])
        { s with tids := [config.pid], phase := .creating [config.pid] }
  | listAll {s : State} {tids : List UInt32} :
      s.phase = .listing → config.thread = false → tids ≠ [] →
      Step s (.listed tids) { s with tids, phase := .creating tids }
  | listFailed {s : State} {message : Str} :
      s.phase = .listing → config.thread = false →
      Step s (.failed message) { s with phase := .failed }
  | listNone {s : State} :
      s.phase = .listing → config.thread = false →
      Step s (.failed ("no threads found for pid ".toList ++ Nat.toDigits 10 config.pid.toNat))
        { s with phase := .failed }
  | create {s : State} {tid : UInt32} {todo : List UInt32} {id : Int32} :
      s.phase = .creating (tid :: todo) →
      Step s (.created (config.createCall tid) id)
        { s with breakpoints := s.breakpoints ++ [id], phase := .creating todo }
  | createFailed {s : State} {tid : UInt32} {todo : List UInt32} :
      s.phase = .creating (tid :: todo) →
      Step s (.createFailed (config.createCall tid)) { s with phase := .creating todo }
  | createdNone {s : State} :
      s.phase = .creating [] → s.breakpoints = [] →
      Step s (.failed ("no LK1337 breakpoints created for pid ".toList ++
        Nat.toDigits 10 config.pid.toNat)) { s with phase := .failed }
  | start {s : State} :
      s.phase = .creating [] → s.breakpoints ≠ [] → Step s .started { s with phase := .head }
  | stop {s : State} : s.phase.Started → Step s .stop { s with cancel := true }
  | enter {s : State} :
      s.phase = .head → s.cancel = false →
      Step s (.loaded false) { s with phase := .polling s.breakpoints 0 }
  | leave {s : State} :
      s.phase = .head → s.cancel = true →
      Step s (.loaded true) { s with phase := .removing s.breakpoints }
  | poll {s : State} {id : Int32} {pending : List Int32} {n : Nat} {hits : List Driver.Hit} :
      s.phase = .polling (id :: pending) n →
      Step s (.polled id (deliver config.filter hits)) { s with phase := .polling pending n }
  | pollFailed {s : State} {id : Int32} {pending : List Int32} {n : Nat} :
      s.phase = .polling (id :: pending) n →
      Step s (.pollFailed id) { s with phase := .polling pending (n + 1) }
  | pass {s : State} {n : Nat} :
      s.phase = .polling [] n → errorsAfter s n < 10 →
      Step s .passed { s with consecutiveErrors := errorsAfter s n, phase := .sleeping }
  | giveUp {s : State} {n : Nat} :
      s.phase = .polling [] n → ¬ errorsAfter s n < 10 →
      Step s .passed
        { s with consecutiveErrors := errorsAfter s n, phase := .removing s.breakpoints }
  | wake {s : State} : s.phase = .sleeping → Step s .woken { s with phase := .head }
  | remove {s : State} {id : Int32} {pending : List Int32} :
      s.phase = .removing (id :: pending) →
      Step s (.removed id) { s with phase := .removing pending }
  | exit {s : State} : s.phase = .removing [] → Step s .exited { s with phase := .exited }

section

variable {config} {s t : State} {e : Event}

/-- Nothing but `stop` moves the cancel flag. -/
theorem Step.cancel_eq (h : Step config s e t) (he : e ≠ .stop) : t.cancel = s.cancel := by
  cases h with
  | stop => exact absurd rfl he
  | _ => rfl

/-- A watch that runs stays one that runs or has run. -/
theorem Step.started (h : Step config s e t) (hs : s.phase.Started) : t.phase.Started := by
  cases h with
  | stop hp => exact hp
  | enter | leave | poll | pollFailed | pass | giveUp | wake | remove | exit => trivial
  | opened hp | openFailed hp | listOne hp _ | listAll hp _ _ | listFailed hp _ | listNone hp _
  | create hp | createFailed hp | createdNone hp _ | start hp _ =>
      rw [hp] at hs
      exact absurd hs id

/-- A watch that runs keeps its threads. -/
theorem Step.tids_eq (h : Step config s e t) (hs : s.phase.Started) : t.tids = s.tids := by
  cases h with
  | listOne hp _ | listAll hp _ _ =>
      rw [hp] at hs
      exact hs.elim
  | _ => rfl

/-- A watch that has failed does nothing. -/
theorem Step.phase_ne_failed (h : Step config s e t) : s.phase ≠ .failed := by
  cases h with
  | stop hp =>
      intro hf
      rw [hf] at hp
      exact hp
  | opened hp | openFailed hp | listOne hp _ | listAll hp _ _ | listFailed hp _ | listNone hp _
  | create hp | createFailed hp | createdNone hp _ | start hp _ | enter hp _ | leave hp _ | poll hp
  | pollFailed hp | pass hp _ | giveUp hp _ | wake hp | remove hp | exit hp => simp [hp]

end

/-! ## What a history says -/

namespace Event

/-- The breakpoint created at an event. -/
@[simp] def createdId : Event → Option Int32
  | .created _ id => some id
  | _ => none

/-- The breakpoint removed at an event. -/
@[simp] def removedId : Event → Option Int32
  | .removed id => some id
  | _ => none

/-- The breakpoint polled at an event, and whether the poll succeeded. -/
@[simp] def outcome : Event → Option (Int32 × Bool)
  | .polled id _ => some (id, true)
  | .pollFailed id => some (id, false)
  | _ => none

end Event

/-- The breakpoints the driver has created, in order. -/
def createdIds (es : List Event) : List Int32 := es.filterMap Event.createdId

/-- The breakpoints whose removal was requested, in order. -/
def removedIds (es : List Event) : List Int32 := es.filterMap Event.removedId

/-- The breakpoints that were polled, in order. -/
def outcomes (es : List Event) : List (Int32 × Bool) := es.filterMap Event.outcome

/-- One pass over the breakpoints: who was polled, and whether that succeeded. -/
abbrev Pass := List (Int32 × Bool)

/-- Every poll of the pass failed. -/
def AllFailed (pass : Pass) : Prop := ∀ outcome ∈ pass, outcome.2 = false

instance (pass : Pass) : Decidable (AllFailed pass) :=
  inferInstanceAs (Decidable (∀ outcome ∈ pass, _))

/-- The finished passes and the current one. -/
def scan (passes : List Pass × Pass) : Event → List Pass × Pass
  | .polled id _ => (passes.1, passes.2 ++ [(id, true)])
  | .pollFailed id => (passes.1, passes.2 ++ [(id, false)])
  | .passed => (passes.1 ++ [passes.2], [])
  | _ => passes

/-- The passes that were finished. -/
def passes (es : List Event) : List Pass := (es.foldl scan ([], [])).1

/-- The pass that is going on. -/
def currentPass (es : List Event) : Pass := (es.foldl scan ([], [])).2

@[simp] theorem createdIds_snoc (es : List Event) (e : Event) :
    createdIds (es ++ [e]) = createdIds es ++ e.createdId.toList :=
  filterMap_snoc _ es e

@[simp] theorem removedIds_snoc (es : List Event) (e : Event) :
    removedIds (es ++ [e]) = removedIds es ++ e.removedId.toList :=
  filterMap_snoc _ es e

@[simp] theorem outcomes_snoc (es : List Event) (e : Event) :
    outcomes (es ++ [e]) = outcomes es ++ e.outcome.toList :=
  filterMap_snoc _ es e

theorem passes_snoc (es : List Event) (e : Event) :
    passes (es ++ [e]) = (scan (passes es, currentPass es) e).1 := by
  rw [passes, List.foldl_append]
  rfl

theorem currentPass_snoc (es : List Event) (e : Event) :
    currentPass (es ++ [e]) = (scan (passes es, currentPass es) e).2 := by
  rw [currentPass, List.foldl_append]
  rfl

end Pwatch.Watch
