import Pwatch.Hit
import Pwatch.Runs.Basic

/-!
# The hit pipeline

Watcher threads hand their samples to the bounded queue `sample_tx`, the single
hit worker numbers them and stores them in `hit_buffer`, and `GET /hits` reads
the buffer.  The three parties are one step relation: a step is one atomic action
of one party, so a run is an interleaving.  The mutex around the buffer is part of
the state, since `GET /hits` uses `try_lock` and answers 503 while somebody else
holds it.

The address resolutions and the clock reading that go into a hit come from the
environment.  They are arbitrary here, which covers every state of the maps cache.
-/

namespace Pwatch.Server

/-- `QueuedSample`. -/
structure QueuedSample where
  breakpointId : UInt64
  pid : UInt32
  data : SampleData
deriving DecidableEq, Repr, Inhabited

/-- `SAMPLE_QUEUE_CAPACITY`. -/
def sampleQueueCapacity : Nat := 4096

/-- The eviction loop of `push_hit`: pop the front while the buffer is full.  With
a positive limit it stops before the buffer is empty. -/
def evict {α : Type} (limit : Nat) : List α → List α
  | [] => []
  | hit :: rest => if limit ≤ (hit :: rest).length then evict limit rest else hit :: rest

/-- The locked section of `push_hit`. -/
def pushBack {α : Type} (limit : Nat) (buffer : List α) (hit : α) : List α :=
  evict limit buffer ++ [hit]

/-- The body of `get_hits` under the lock. -/
def getHits {α : Type} (buffer : List α) (limit : Option Nat) : List α :=
  (buffer.reverse.take (limit.getD 100)).reverse

namespace Pipeline

/-- Who holds the mutex of `hit_buffer`. -/
inductive Lock
  | free
  | worker
  | reader (request : Nat)
deriving DecidableEq, Repr

/-- Where the callback of a watcher stands. -/
inductive Callback
  | /-- Not running, or about to call `try_send`. -/
    idle
  | /-- `try_send` has failed and the drop is not counted yet. -/
    rejected
deriving DecidableEq, Repr

/-- Where the hit worker stands in its loop. -/
inductive Worker
  | /-- In `blocking_recv`. -/
    waiting
  | /-- Resolving the addresses of a sample. -/
    received (sample : QueuedSample)
  | /-- The hit is made; `push_hit` has not stored it yet. -/
    numbered (hit : Hit)
  | /-- In the locked section of `push_hit`. -/
    locked (hit : Hit)
  | /-- The hit is stored and not broadcast yet. -/
    stored (hit : Hit)
deriving DecidableEq, Repr

/-- The sample the worker has received and not numbered. -/
def Worker.held : Worker → Option QueuedSample
  | .received sample => some sample
  | _ => none

/-- The hit the worker has numbered and not stored. -/
def Worker.unstored : Worker → Option Hit
  | .numbered hit | .locked hit => some hit
  | _ => none

end Pipeline

open Pipeline in
/-- The part of `InnerState` the pipeline works on, and the position of each
thread.  A watcher is named by the id of its breakpoint, which its callback has
captured. -/
structure Pipeline where
  callback : UInt64 → Callback
  queue : List QueuedSample
  droppedSamples : UInt64
  worker : Worker
  nextSeq : UInt64
  lock : Lock
  hitBuffer : List Hit

namespace Pipeline

/-- The state `serve` starts with. -/
def initial : Pipeline where
  callback := fun _ ↦ .idle
  queue := []
  droppedSamples := 0
  worker := .waiting
  nextSeq := 0
  lock := .free
  hitBuffer := []

/-- The atomic actions of the three parties. -/
inductive Event
  | /-- `try_send` of a callback has put its sample in the queue. -/
    accepted (sample : QueuedSample)
  | /-- `try_send` of a callback has failed. -/
    rejected (sample : QueuedSample)
  | /-- A callback has counted its drop. -/
    dropped (breakpointId : UInt64)
  | received (sample : QueuedSample)
  | numbered (sample : QueuedSample) (hit : Hit)
  | locked
  | /-- `push_hit` is past the buffer: the hit is stored, or the limit is zero. -/
    pushed (hit : Hit)
  | sent (hit : Hit)
  | /-- `try_lock` of a `GET /hits` has succeeded. -/
    tryLocked (request : Nat)
  | /-- A `GET /hits` is answered 503. -/
    busy (request : Nat)
  | /-- A `GET /hits` is answered with hits. -/
    hits (request : Nat) (limit : Option Nat) (answer : List Hit)

variable (arch : Arch) (limit : Nat)

/-- One action of one party. -/
inductive Step : Pipeline → Event → Pipeline → Prop
  | accept {s : Pipeline} {sample : QueuedSample} :
      s.callback sample.breakpointId = .idle → s.queue.length < sampleQueueCapacity →
      Step s (.accepted sample) { s with queue := s.queue ++ [sample] }
  | reject {s : Pipeline} {sample : QueuedSample} :
      s.callback sample.breakpointId = .idle → ¬ s.queue.length < sampleQueueCapacity →
      Step s (.rejected sample)
        { s with callback := Function.update s.callback sample.breakpointId .rejected }
  | drop {s : Pipeline} {id : UInt64} :
      s.callback id = .rejected →
      Step s (.dropped id)
        { s with
          callback := Function.update s.callback id .idle
          droppedSamples := s.droppedSamples + 1 }
  | receive {s : Pipeline} {sample : QueuedSample} {rest : List QueuedSample} :
      s.worker = .waiting → s.queue = sample :: rest →
      Step s (.received sample) { s with queue := rest, worker := .received sample }
  | number {s : Pipeline} {sample : QueuedSample} {timestampMs : Nat}
      {regResolutions : List (Option Maps.AddressResolution)}
      {backtraceResolutions : Option (List (Option Maps.AddressResolution))} {hit : Hit}
      {nextSeq : UInt64} :
      s.worker = .received sample →
      Hit.makeHitWithMaps arch s.nextSeq timestampMs sample.breakpointId sample.data
        regResolutions backtraceResolutions = (hit, nextSeq) →
      Step s (.numbered sample hit) { s with nextSeq, worker := .numbered hit }
  | lock {s : Pipeline} {hit : Hit} :
      s.worker = .numbered hit → 0 < limit → s.lock = .free →
      Step s .locked { s with lock := .worker, worker := .locked hit }
  | store {s : Pipeline} {hit : Hit} :
      s.worker = .locked hit →
      Step s (.pushed hit)
        { s with
          lock := .free
          hitBuffer := pushBack limit s.hitBuffer hit
          worker := .stored hit }
  | skip {s : Pipeline} {hit : Hit} :
      s.worker = .numbered hit → limit = 0 →
      Step s (.pushed hit) { s with worker := .stored hit }
  | send {s : Pipeline} {hit : Hit} :
      s.worker = .stored hit → Step s (.sent hit) { s with worker := .waiting }
  | tryLock {s : Pipeline} {request : Nat} :
      s.lock = .free → Step s (.tryLocked request) { s with lock := .reader request }
  | busy {s : Pipeline} {request : Nat} :
      s.lock ≠ .free → Step s (.busy request) s
  | hits {s : Pipeline} {request : Nat} {k : Option Nat} :
      s.lock = .reader request →
      Step s (.hits request k (getHits s.hitBuffer k)) { s with lock := .free }

/-! ## What a history says -/

namespace Event

/-- The sample the queue takes at an event. -/
@[simp] def acceptedSample : Event → Option QueuedSample
  | .accepted sample => some sample
  | _ => none

/-- The breakpoint whose sample the queue refuses at an event. -/
@[simp] def rejectedId : Event → Option UInt64
  | .rejected sample => some sample.breakpointId
  | _ => none

/-- The breakpoint whose drop is counted at an event. -/
@[simp] def countedDrop : Event → Option UInt64
  | .dropped id => some id
  | _ => none

/-- The sample numbered at an event, with its hit. -/
@[simp] def numberedSample : Event → Option (QueuedSample × Hit)
  | .numbered sample hit => some (sample, hit)
  | _ => none

/-- The hit `push_hit` takes past the buffer at an event. -/
@[simp] def pushedHit : Event → Option Hit
  | .pushed hit => some hit
  | _ => none

end Event

/-- The samples the queue has taken, in order. -/
def acceptedSamples (es : List Event) : List QueuedSample := es.filterMap Event.acceptedSample

/-- The breakpoints of the samples that the queue has refused. -/
def rejectedIds (es : List Event) : List UInt64 := es.filterMap Event.rejectedId

/-- The breakpoints of the samples counted as dropped. -/
def countedDrops (es : List Event) : List UInt64 := es.filterMap Event.countedDrop

/-- The samples that were numbered, each with its hit, in order. -/
def numberedSamples (es : List Event) : List (QueuedSample × Hit) :=
  es.filterMap Event.numberedSample

/-- The hits `push_hit` has taken past the buffer, in order. -/
def pushedHits (es : List Event) : List Hit := es.filterMap Event.pushedHit

@[simp] theorem acceptedSamples_snoc (es : List Event) (e : Event) :
    acceptedSamples (es ++ [e]) = acceptedSamples es ++ e.acceptedSample.toList :=
  filterMap_snoc _ es e

@[simp] theorem rejectedIds_snoc (es : List Event) (e : Event) :
    rejectedIds (es ++ [e]) = rejectedIds es ++ e.rejectedId.toList :=
  filterMap_snoc _ es e

@[simp] theorem countedDrops_snoc (es : List Event) (e : Event) :
    countedDrops (es ++ [e]) = countedDrops es ++ e.countedDrop.toList :=
  filterMap_snoc _ es e

@[simp] theorem numberedSamples_snoc (es : List Event) (e : Event) :
    numberedSamples (es ++ [e]) = numberedSamples es ++ e.numberedSample.toList :=
  filterMap_snoc _ es e

@[simp] theorem pushedHits_snoc (es : List Event) (e : Event) :
    pushedHits (es ++ [e]) = pushedHits es ++ e.pushedHit.toList :=
  filterMap_snoc _ es e

/-- The callback calls, each counted once its send was accepted or its drop was
recorded. -/
def calls (es : List Event) : Nat := (acceptedSamples es).length + (countedDrops es).length

end Pipeline

end Pwatch.Server
