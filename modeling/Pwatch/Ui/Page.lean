import Mathlib.Logic.Function.Basic
import Pwatch.Hit
import Pwatch.Runs.Basic

/-!
# The hit list of the dashboard

The part of `pwatch-ui/app.js` that keeps `state.hits`: `connect`, `loadHits`, `openStream` and
`appendHit`.  The page runs one handler at a time; between two of them anything may happen on the
network, so an answer is handled some time after it was made, and the hits of a stream wait until
their turn comes.  A hit is what the server has made of it.

What else a handler does is left out, and so are the requests that do not ask for hits: they
decide whether and when `connect` comes to `openStream`, and nothing is assumed about that.
-/

namespace Pwatch.Ui

/-! ## Lists -/

/-- `appendHit`, whatever the values of the list are. -/
def appendHit {V : Type} (hitLimit : Int) (hits : List V) (hit : V) : List V :=
  let hits := hits ++ [hit]
  if hitLimit < hits.length then hits.drop (hits.length - hitLimit).toNat else hits

/-- What `appendHit` keeps are the newest hits. -/
theorem appendHit_suffix {V : Type} (hitLimit : Int) (hits : List V) (hit : V) :
    appendHit hitLimit hits hit <:+ hits ++ [hit] := by
  rw [appendHit]
  split
  · exact List.drop_suffix ..
  · exact List.suffix_refl _

/-! ## States -/

/-- Who calls `loadHits`. -/
inductive Origin
  | connect
  | /-- The button Refresh. -/
    refresh
  | /-- The `change` event of the hit limit. -/
    hitLimit
deriving DecidableEq, Repr

/-- Where a call of `loadHits` stands. -/
inductive Load
  | idle
  | requested (origin : Origin) (limit : Int)
  | /-- The answer is on its way: hits, or an error. -/
    answered (origin : Origin) (answer : Option (List Hit))
  | /-- `loadHits` has returned to `connect`, and `openStream` is still to come. -/
    loaded
  | done
deriving DecidableEq, Repr

/-- How a stream is read. -/
inductive StreamKind
  | eventSource
  | fetch
deriving DecidableEq, Repr

inductive StreamPhase
  | connecting
  | /-- The server has subscribed the stream, and its response is on its way. -/
    subscribed
  | live
deriving DecidableEq, Repr

/-- A stream that the page listens to. -/
structure Stream where
  number : Nat
  kind : StreamKind
  phase : StreamPhase
  /-- The hits that are on their way to the page. -/
  wire : List Hit
deriving DecidableEq, Repr

/-- The state of the page.  Calls of `loadHits` and streams are numbered. -/
structure Page where
  /-- `Number(els.hitLimit.value || 100)` -/
  hitLimit : Int
  hits : List Hit
  loads : Nat → Load
  stream : Option Stream
  /-- The number of streams that were opened. -/
  streams : Nat

namespace Page

/-- The page before its first handler. -/
def initial : Page where
  hitLimit := 100
  hits := []
  loads := fun _ ↦ .idle
  stream := none
  streams := 0

/-- The page with another state of a load. -/
def setLoad (s : Page) (r : Nat) (load : Load) : Page :=
  { s with loads := Function.update s.loads r load }

/-- The page with a new stream. -/
def openStream (s : Page) (kind : StreamKind) : Page where
  hitLimit := s.hitLimit
  hits := s.hits
  loads := s.loads
  stream := some ⟨s.streams, kind, .connecting, []⟩
  streams := s.streams + 1

/-! ## Steps -/

/-- What the page does on its own. -/
inductive Action
  | /-- The user edits the hit limit. -/
    hitLimitSet (limit : Int)
  | /-- `loadHits` sends its request. -/
    requested (r : Nat) (origin : Origin)
  | /-- A request fails, on the network or with an error of the server. -/
    refused (r : Nat)
  | /-- `loadHits` goes on with its answer. -/
    loaded (r : Nat)
  | /-- `connect` calls `openStream`. -/
    opened (r : Nat)
  | /-- The timer of `openStream` calls `openFetchStream`. -/
    reopened
  | /-- The response of the stream arrives. -/
    live
  | /-- The handler of a `hit` event. -/
    appended (hit : Hit)
  | /-- The button Clear. -/
    cleared

inductive Event
  | action (a : Action)
  | /-- The server answers a `GET /hits`. -/
    answered (r : Nat) (limit : Option Nat) (answer : List Hit)
  | /-- The server subscribes a stream. -/
    subscribed (n : Nat)
  | /-- The server writes a hit to a stream. -/
    written (n : Nat) (hit : Hit)

inductive Step : Page → Event → Page → Prop
  | setHitLimit {s : Page} {limit : Int} :
      Step s (.action (.hitLimitSet limit)) { s with hitLimit := limit }
  | /-- `connect` closes the stream before it loads. -/
    connect {s : Page} {r : Nat} :
      s.loads r = .idle →
      Step s (.action (.requested r .connect))
        { s.setLoad r (.requested .connect s.hitLimit) with stream := none }
  | load {s : Page} {r : Nat} {origin : Origin} :
      s.loads r = .idle → origin ≠ .connect →
      Step s (.action (.requested r origin)) (s.setLoad r (.requested origin s.hitLimit))
  | /-- A limit that is no `usize` is refused. -/
    answer {s : Page} {r : Nat} {origin : Origin} {limit : Nat} {answer : List Hit} :
      s.loads r = .requested origin limit →
      Step s (.answered r (some limit) answer) (s.setLoad r (.answered origin (some answer)))
  | /-- Others ask for hits too. -/
    answerOther {s : Page} {r : Nat} {limit : Option Nat} {answer : List Hit} :
      s.loads r = .idle → Step s (.answered r limit answer) s
  | refuse {s : Page} {r : Nat} {origin : Origin} {limit : Int} :
      s.loads r = .requested origin limit →
      Step s (.action (.refused r)) (s.setLoad r (.answered origin none))
  | replace {s : Page} {r : Nat} {origin : Origin} {answer : List Hit} :
      s.loads r = .answered origin (some answer) →
      Step s (.action (.loaded r))
        { s.setLoad r (if origin = .connect then .loaded else .done) with hits := answer }
  | fail {s : Page} {r : Nat} {origin : Origin} :
      s.loads r = .answered origin none → Step s (.action (.loaded r)) (s.setLoad r .done)
  | openStream {s : Page} {r : Nat} :
      s.loads r = .loaded →
      Step s (.action (.opened r)) ((s.setLoad r .done).openStream .eventSource)
  | /-- Two seconds after `openStream`, when there is no response yet. -/
    openFetchStream {s : Page} {stream : Stream} :
      s.stream = some stream → stream.kind = .eventSource → stream.phase ≠ .live →
      Step s (.action .reopened) (s.openStream .fetch)
  | live {s : Page} {stream : Stream} :
      s.stream = some stream → stream.phase = .subscribed →
      Step s (.action .live) { s with stream := some { stream with phase := .live } }
  | append {s : Page} {stream : Stream} {hit : Hit} {rest : List Hit} :
      s.stream = some stream → stream.phase = .live → stream.wire = hit :: rest →
      Step s (.action (.appended hit)) { s with
        hits := appendHit s.hitLimit s.hits hit
        stream := some { stream with wire := rest } }
  | clear {s : Page} : Step s (.action .cleared) { s with hits := [] }
  | subscribe {s : Page} {stream : Stream} :
      s.stream = some stream → stream.phase = .connecting →
      Step s (.subscribed stream.number)
        { s with stream := some { stream with phase := .subscribed } }
  | /-- The page has closed the stream, but its request is at the server. -/
    subscribeClosed {s : Page} {n : Nat} :
      n < s.streams → (∀ stream, s.stream = some stream → stream.number ≠ n) →
      Step s (.subscribed n) s
  | write {s : Page} {stream : Stream} {hit : Hit} :
      s.stream = some stream →
      Step s (.written stream.number hit)
        { s with stream := some { stream with wire := stream.wire ++ [hit] } }
  | /-- Nobody listens to a stream that the page has closed. -/
    writeClosed {s : Page} {n : Nat} {hit : Hit} :
      (∀ stream, s.stream = some stream → stream.number ≠ n) → Step s (.written n hit) s

end Page

end Pwatch.Ui
