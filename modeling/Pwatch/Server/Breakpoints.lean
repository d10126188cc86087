import Mathlib.Data.List.AList
import Mathlib.Logic.Function.Basic
import Pwatch.Blocking
import Pwatch.Watch.Watcher

/-!
# The breakpoint registry

The handlers of `/breakpoints` in `src/server.rs` and the watches they start, as one
system: every request is a thread of steps, and so is every watch.  A create is split
where it can be interrupted or can wait: at the calls that resolve the address, at
`fetch_add`, in `start_watch`, at the lock of the registry.  `blocking::run` answers a
request when its job has finished or three seconds are over; the job itself goes on.

Whether a slot of the blocking pool is free, what an address resolves to, what the
driver does and how long anything takes is free.  The lock is not poisoned, and no job
panics.
-/

namespace Pwatch.Server

open Watch Maps

/-! ## Records -/

/-- `CreateBreakpointRequest`. -/
structure CreateBreakpointRequest where
  pid : UInt32
  typeName : Str
  addr : Str
  backtrace : Bool
  filter : Option Str
deriving DecidableEq, Repr, Inhabited

/-- `BreakpointView`. -/
structure BreakpointView where
  id : UInt64
  pid : UInt32
  typeName : Str
  addr : Str
  resolvedAddr : Str
  resolvedMap : Option MapRegion
  threads : List UInt32
  createdAtMs : Nat
  status : Str
deriving DecidableEq, Repr, Inhabited

/-- `BreakpointEntry`.  The `RunningWatch` is named by the request that started it. -/
structure BreakpointEntry where
  view : BreakpointView
  watch : Nat
deriving DecidableEq, Repr

/-- What a create is answered with. -/
inductive Reply
  | /-- 201 -/
    created (view : BreakpointView)
  | /-- 400 -/
    error (failure : Blocking.Failure)
deriving DecidableEq, Repr

/-! ## The pure parts of `create_breakpoint_inner` -/

section

variable (arch : Arch) (request : CreateBreakpointRequest)

/-- The first check. -/
def watchpointType : Except Str (UInt32 × UInt32) :=
  match parseWatchpointType request.typeName with
  | some typeLen => .ok typeLen
  | none => .error ("invalid watchpoint type: ".toList ++ request.typeName)

/-- What `resolve_expression` returns for an address it has found. -/
def resolvedAddress (value : UInt64) (map : Option MapRegion) : ResolvedAddress where
  expression := request.addr
  address := Hit.hexText value
  value
  map

/-- The `Display` text of an error of `RegFilter::parse`. -/
def filterMessage : Filter.Failure → Str
  | .bail message => message
  | .panic => []

/-- The filter of the request. -/
def parsedFilter : Except Str (Option Filter.RegFilter) :=
  match request.filter with
  | none => .ok none
  | some text => ((Filter.parse arch text).mapError filterMessage).map some

/-- The `WatchConfig` of the request. -/
def watchConfig (typeLen : UInt32 × UInt32) (resolved : ResolvedAddress)
    (filter : Option Filter.RegFilter) : WatchConfig where
  pid := request.pid
  thread := false
  typeName := request.typeName
  addrText := resolved.address
  ty := typeLen.1
  addr := resolved.value
  len := typeLen.2.toUInt64
  backtrace := request.backtrace
  filter

end

/-- The view of a breakpoint that has just been started. -/
def newView (id : UInt64) (config : WatchConfig) (resolved : ResolvedAddress)
    (threads : List UInt32) (createdAtMs : Nat) : BreakpointView where
  id
  pid := config.pid
  typeName := config.typeName
  addr := resolved.expression
  resolvedAddr := config.addrText
  resolvedMap := resolved.map
  threads
  createdAtMs
  status := "running".toList

/-! ## States -/

/-- Where the job of a create stands. -/
inductive CreatePhase
  | idle
  | /-- The slot is taken; the watchpoint type is checked next. -/
    admitted (request : CreateBreakpointRequest)
  | /-- In `resolve_expression`. -/
    resolving (request : CreateBreakpointRequest) (typeLen : UInt32 × UInt32)
  | /-- The filter is parsed next. -/
    filtering (request : CreateBreakpointRequest) (typeLen : UInt32 × UInt32)
      (resolved : ResolvedAddress)
  | /-- `fetch_add` comes next. -/
    numbering (config : WatchConfig) (resolved : ResolvedAddress)
  | /-- In `start_watch`. -/
    launching (resolved : ResolvedAddress)
  | /-- Waiting for the lock of the registry. -/
    locking (view : BreakpointView)
  | /-- Holding the lock of the registry. -/
    inserting (view : BreakpointView)
  | done (result : Except Str BreakpointView)
deriving DecidableEq

/-- A watch that a create has begun to start. -/
structure Launched where
  id : UInt64
  config : WatchConfig
  watch : Watch.State
deriving DecidableEq

/-- A create: its job, the watch it has begun to start, its answer. -/
structure Create where
  phase : CreatePhase
  launched : Option Launched
  reply : Option Reply
deriving DecidableEq

/-- Where a delete stands. -/
inductive DeletePhase
  | idle
  | /-- The entry is out of the registry; its watch is stopped next. -/
    stopping (id : UInt64) (watch : Nat)
  | /-- The watch is stopped; 204 comes next. -/
    stopped (id : UInt64)
  | /-- There was no entry; 404 comes next. -/
    missing (id : UInt64)
deriving DecidableEq, Repr

/-- Who holds the lock of the registry. -/
inductive Holder
  | free
  | create (request : Nat)
  | delete (request : Nat) (id : UInt64)
  | list (request : Nat)
deriving DecidableEq, Repr

/-- The part of `InnerState` the handlers work on and the position of each of them.
Requests are numbered. -/
structure Registry where
  nextBreakpointId : UInt64
  breakpoints : AList fun _ : UInt64 ↦ BreakpointEntry
  lock : Holder
  creates : Nat → Create
  deletes : Nat → DeletePhase

namespace Registry

/-- The state `serve` starts with. -/
def initial : Registry where
  nextBreakpointId := 1
  breakpoints := ∅
  lock := .free
  creates := fun _ ↦ ⟨.idle, none, none⟩
  deletes := fun _ ↦ .idle

/-- The state with another create. -/
def setCreate (s : Registry) (r : Nat) (c : Create) : Registry :=
  { s with creates := Function.update s.creates r c }

/-- The state with another delete. -/
def setDelete (s : Registry) (d : Nat) (p : DeletePhase) : Registry :=
  { s with deletes := Function.update s.deletes d p }

variable (s : Registry) (r d : Nat) (c : Create) (p : DeletePhase)

@[simp] theorem setCreate_creates_self : (s.setCreate r c).creates r = c :=
  Function.update_self ..

@[simp] theorem setCreate_creates_of_ne {r' : Nat} (h : r' ≠ r) :
    (s.setCreate r c).creates r' = s.creates r' := Function.update_of_ne h ..

@[simp] theorem setCreate_setCreate (c' : Create) :
    (s.setCreate r c).setCreate r c' = s.setCreate r c' := by
  rw [setCreate, setCreate, Function.update_idem, setCreate]

/-- Writing back what is there. -/
theorem setCreate_eq_self (h : c = s.creates r) : s.setCreate r c = s := by
  rw [h, setCreate, Function.update_eq_self]

@[simp] theorem setCreate_breakpoints : (s.setCreate r c).breakpoints = s.breakpoints := rfl

@[simp] theorem setDelete_deletes_self : (s.setDelete d p).deletes d = p :=
  Function.update_self ..

@[simp] theorem setDelete_deletes_of_ne {d' : Nat} (h : d' ≠ d) :
    (s.setDelete d p).deletes d' = s.deletes d' := Function.update_of_ne h ..

/-- What holds of every create holds of every one after an update. -/
theorem forall_setCreate {P : Nat → Create → Prop} (hself : P r c)
    (hother : ∀ r', P r' (s.creates r')) : ∀ r', P r' ((s.setCreate r c).creates r') :=
  (Function.forall_update_iff s.creates P).mpr ⟨hself, fun r' _ ↦ hother r'⟩

/-- A phase of a delete after an update is the new one, or an old one of another delete. -/
theorem setDelete_cases {P : DeletePhase → Prop} {d' : Nat}
    (h : P ((s.setDelete d p).deletes d')) : d' = d ∧ P p ∨ d' ≠ d ∧ P (s.deletes d') := by
  by_cases hd : d' = d
  · subst hd
    exact .inl ⟨rfl, setDelete_deletes_self s d' p ▸ h⟩
  · exact .inr ⟨hd, setDelete_deletes_of_ne s d p hd ▸ h⟩

@[simp] theorem setDelete_creates : (s.setDelete d p).creates = s.creates := rfl

@[simp] theorem setDelete_breakpoints : (s.setDelete d p).breakpoints = s.breakpoints := rfl

end Registry

/-! ## Steps -/

inductive Event
  | /-- A create is admitted to the blocking pool. -/
    admitted (r : Nat) (request : CreateBreakpointRequest)
  | /-- The job of a create goes on without an effect that others see. -/
    went (r : Nat)
  | /-- `fetch_add`. -/
    numbered (r : Nat) (id : UInt64)
  | /-- An action of the watch a create has begun to start. -/
    watch (r : Nat) (e : Watch.Event)
  | insertLocked (r : Nat)
  | /-- `HashMap::insert`, with the entry it returns. -/
    inserted (r : Nat) (id : UInt64) (replaced : Option BreakpointEntry)
  | answered (r : Nat) (reply : Reply)
  | deleteLocked (d : Nat)
  | /-- `HashMap::remove` has returned the entry of a watch. -/
    removed (d : Nat) (id : UInt64) (watch : Nat)
  | /-- `HashMap::remove` has returned nothing. -/
    missed (d : Nat) (id : UInt64)
  | /-- The watch of a removed entry is stopped. -/
    stopped (d : Nat) (watch : Nat)
  | /-- A delete is answered 204. -/
    noContent (d : Nat) (id : UInt64)
  | /-- A delete is answered 404. -/
    notFound (d : Nat) (id : UInt64)
  | /-- A delete is answered 503. -/
    deleteBusy (d : Nat) (id : UInt64)
  | listLocked (q : Nat)
  | listed (q : Nat) (views : List BreakpointView)
  | /-- A list is answered 503. -/
    listBusy (q : Nat)
deriving DecidableEq

/-- The actions of a watch that change nothing for the job that starts it: it neither
returns, nor is the watch stopped. -/
def Quiet (e : Watch.Event) : Prop :=
  e ≠ .started ∧ e ≠ .stop ∧ ∀ message, e ≠ .failed message

variable (arch : Arch)

open Registry in
/-- One action of one request or one watch. -/
inductive Step : Registry → Event → Registry → Prop
  -- the handler of a create
  | accept {s : Registry} {r : Nat} {request : CreateBreakpointRequest} :
      (s.creates r).phase = .idle → (s.creates r).reply = none →
      Step s (.admitted r request) (s.setCreate r { s.creates r with phase := .admitted request })
  | refuse {s : Registry} {r : Nat} :
      (s.creates r).phase = .idle → (s.creates r).reply = none →
      Step s (.answered r (.error .exhausted))
        (s.setCreate r { s.creates r with reply := some (.error .exhausted) })
  | timeOut {s : Registry} {r : Nat} :
      (s.creates r).phase ≠ .idle → (s.creates r).reply = none →
      Step s (.answered r (.error .timedOut))
        (s.setCreate r { s.creates r with reply := some (.error .timedOut) })
  | answerError {s : Registry} {r : Nat} {message : Str} :
      (s.creates r).phase = .done (.error message) → (s.creates r).reply = none →
      Step s (.answered r (.error (.job message)))
        (s.setCreate r { s.creates r with reply := some (.error (.job message)) })
  | answerCreated {s : Registry} {r : Nat} {view : BreakpointView} :
      (s.creates r).phase = .done (.ok view) → (s.creates r).reply = none →
      Step s (.answered r (.created view))
        (s.setCreate r { s.creates r with reply := some (.created view) })
  -- the job of a create, until it starts a watch
  | checkType {s : Registry} {r : Nat} {request : CreateBreakpointRequest}
      {typeLen : UInt32 × UInt32} :
      (s.creates r).phase = .admitted request → watchpointType request = .ok typeLen →
      Step s (.went r) (s.setCreate r { s.creates r with phase := .resolving request typeLen })
  | checkTypeError {s : Registry} {r : Nat} {request : CreateBreakpointRequest} {message : Str} :
      (s.creates r).phase = .admitted request → watchpointType request = .error message →
      Step s (.went r) (s.setCreate r { s.creates r with phase := .done (.error message) })
  | resolve {s : Registry} {r : Nat} {request : CreateBreakpointRequest}
      {typeLen : UInt32 × UInt32} {value : UInt64} {map : Option MapRegion} :
      (s.creates r).phase = .resolving request typeLen →
      Step s (.went r) (s.setCreate r { s.creates r with
        phase := .filtering request typeLen (resolvedAddress request value map) })
  | resolveError {s : Registry} {r : Nat} {request : CreateBreakpointRequest}
      {typeLen : UInt32 × UInt32} {message : Str} :
      (s.creates r).phase = .resolving request typeLen →
      Step s (.went r) (s.setCreate r { s.creates r with phase := .done (.error message) })
  | parseFilter {s : Registry} {r : Nat} {request : CreateBreakpointRequest}
      {typeLen : UInt32 × UInt32} {resolved : ResolvedAddress} {filter : Option Filter.RegFilter} :
      (s.creates r).phase = .filtering request typeLen resolved →
      parsedFilter arch request = .ok filter →
      Step s (.went r) (s.setCreate r { s.creates r with
        phase := .numbering (watchConfig request typeLen resolved filter) resolved })
  | parseFilterError {s : Registry} {r : Nat} {request : CreateBreakpointRequest}
      {typeLen : UInt32 × UInt32} {resolved : ResolvedAddress} {message : Str} :
      (s.creates r).phase = .filtering request typeLen resolved →
      parsedFilter arch request = .error message →
      Step s (.went r) (s.setCreate r { s.creates r with phase := .done (.error message) })
  | number {s : Registry} {r : Nat} {config : WatchConfig} {resolved : ResolvedAddress} :
      (s.creates r).phase = .numbering config resolved →
      Step s (.numbered r s.nextBreakpointId)
        ({ s with nextBreakpointId := s.nextBreakpointId + 1 }.setCreate r { s.creates r with
          phase := .launching resolved
          launched := some ⟨s.nextBreakpointId, config, .initial⟩ })
  -- the watch, and the job around `start_watch`
  | watch {s : Registry} {r : Nat} {l : Launched} {e : Watch.Event} {w : Watch.State} :
      (s.creates r).launched = some l → Watch.Step l.config l.watch e w → Quiet e →
      Step s (.watch r e)
        (s.setCreate r { s.creates r with launched := some { l with watch := w } })
  | launchFailed {s : Registry} {r : Nat} {l : Launched} {resolved : ResolvedAddress}
      {message : Str} {w : Watch.State} :
      (s.creates r).launched = some l → (s.creates r).phase = .launching resolved →
      Watch.Step l.config l.watch (.failed message) w →
      Step s (.watch r (.failed message)) (s.setCreate r { s.creates r with
        phase := .done (.error message)
        launched := some { l with watch := w } })
  | launched {s : Registry} {r : Nat} {l : Launched} {resolved : ResolvedAddress}
      {w : Watch.State} {createdAtMs : Nat} :
      (s.creates r).launched = some l → (s.creates r).phase = .launching resolved →
      Watch.Step l.config l.watch .started w →
      Step s (.watch r .started) (s.setCreate r { s.creates r with
        phase := .locking (newView l.id l.config resolved w.tids createdAtMs)
        launched := some { l with watch := w } })
  | lockInsert {s : Registry} {r : Nat} {view : BreakpointView} :
      (s.creates r).phase = .locking view → s.lock = .free →
      Step s (.insertLocked r) ({ s with lock := .create r }.setCreate r
        { s.creates r with phase := .inserting view })
  | insert {s : Registry} {r : Nat} {view : BreakpointView} :
      (s.creates r).phase = .inserting view → s.lock = .create r →
      Step s (.inserted r view.id (s.breakpoints.lookup view.id))
        ({ s with
          breakpoints := s.breakpoints.insert view.id ⟨view, r⟩
          lock := .free }.setCreate r { s.creates r with phase := .done (.ok view) })
  -- deletes
  | lockDelete {s : Registry} {d : Nat} {id : UInt64} :
      s.deletes d = .idle → s.lock = .free →
      Step s (.deleteLocked d) { s with lock := .delete d id }
  | deleteBusy {s : Registry} {d : Nat} {id : UInt64} :
      s.deletes d = .idle → s.lock ≠ .free → Step s (.deleteBusy d id) s
  | remove {s : Registry} {d : Nat} {id : UInt64} {entry : BreakpointEntry} :
      s.lock = .delete d id → s.breakpoints.lookup id = some entry →
      Step s (.removed d id entry.watch)
        ({ s with breakpoints := s.breakpoints.erase id, lock := .free }.setDelete d
          (.stopping id entry.watch))
  | miss {s : Registry} {d : Nat} {id : UInt64} :
      s.lock = .delete d id → s.breakpoints.lookup id = none →
      Step s (.missed d id) ({ s with lock := .free }.setDelete d (.missing id))
  | stop {s : Registry} {d r : Nat} {id : UInt64} {l : Launched} {w : Watch.State} :
      s.deletes d = .stopping id r → (s.creates r).launched = some l →
      Watch.Step l.config l.watch .stop w →
      Step s (.stopped d r) ((s.setCreate r
        { s.creates r with launched := some { l with watch := w } }).setDelete d (.stopped id))
  | noContent {s : Registry} {d : Nat} {id : UInt64} :
      s.deletes d = .stopped id → Step s (.noContent d id) (s.setDelete d .idle)
  | notFound {s : Registry} {d : Nat} {id : UInt64} :
      s.deletes d = .missing id → Step s (.notFound d id) (s.setDelete d .idle)
  -- lists
  | lockList {s : Registry} {q : Nat} :
      s.lock = .free → Step s (.listLocked q) { s with lock := .list q }
  | listBusy {s : Registry} {q : Nat} : s.lock ≠ .free → Step s (.listBusy q) s
  | /-- `values` has no order of its own. -/
    list {s : Registry} {q : Nat} {values : List BreakpointView} :
      s.lock = .list q → values.Perm (s.breakpoints.entries.map fun entry ↦ entry.2.view) →
      Step s (.listed q (values.mergeSort fun a b ↦ a.id ≤ b.id)) { s with lock := .free }

end Pwatch.Server
