import Pwatch.Ui.Frames

/-!
# The streams of the dashboard

How `connect`, `openStream`, `closeStream` and `openFetchStream` of `pwatch-ui/app.js` deal with
the objects of the browser: each `EventSource` and each `fetch` that was ever made, and the timer
that falls back from the one to the other.  The page keeps two variables for them, which any
number of calls of `connect` at once and a late timer may overwrite.

At most one of the objects can still bring a hit, it is the one the page holds, and it is
connected to the server in `state.apiBase`; what was opened before `connect` brings nothing any
more (`one_stream`).

A `fetch` hands on one hit at a time here, also when several come in one chunk.  What is
left out is what `Pwatch.Ui.Page` leaves out.
-/

namespace Pwatch.Ui

open Text

/-! ## Objects -/

/-- An `EventSource`, or the `fetch` of `openFetchStream` with its `AbortController`. -/
structure StreamObject extends Stream where
  url : Str
  /-- The source is closed, or the fetch is aborted or has come to its end. -/
  closed : Bool
deriving DecidableEq, Repr

/-- `source.readyState === EventSource.OPEN` -/
def StreamObject.isOpen (o : StreamObject) : Bool := !o.closed && o.phase == .live

/-- `apiUrl`. -/
def apiUrl (apiBase path : Str) : Str := apiBase.rdropWhile (· == '/') ++ path

/-- What the page knows of its streams, and what the browser knows. -/
structure Connection where
  /-- `els.apiBase.value` -/
  input : Str
  apiBase : Str
  /-- `Number(els.hitLimit.value || 100)` -/
  hitLimit : Int
  hits : List Hit
  loads : Nat → Load
  /-- Every stream that was ever made. -/
  streams : List StreamObject
  eventSource : Option Nat
  streamAbort : Option Nat
  streamReadyTimer : Nat
  /-- The timers of `openStream` that have not fired, and the source each of them is for. -/
  timers : List (Nat × Nat)
  /-- `els.streamState.textContent` -/
  streamState : Str

namespace Connection

def defaultBase : Str := "http://127.0.0.1:8080".toList

/-- The page before its first handler.  `stored` is `localStorage.getItem("pwatch.apiBase")`. -/
def initial (stored : Option Str) : Connection :=
  let apiBase := match stored with
    | none | some [] => defaultBase
    | some apiBase => apiBase
  { input := apiBase
    apiBase
    hitLimit := 100
    hits := []
    loads := fun _ ↦ .idle
    streams := []
    eventSource := none
    streamAbort := none
    streamReadyTimer := 0
    timers := []
    streamState := "SSE idle".toList }

/-! ## Functions of the page -/

/-- `window.clearTimeout`. -/
def clearTimeout (c : Connection) (timer : Nat) : Connection :=
  { c with timers := c.timers.filter fun p ↦ p.1 != timer }

/-- `close` of the source, or `abort`. -/
def close (streams : List StreamObject) : Option Nat → List StreamObject
  | none => streams
  | some n => streams.modify n fun o ↦ { o with closed := true }

/-- `closeStream`. -/
def closeStream (c : Connection) : Connection :=
  let c := c.clearTimeout c.streamReadyTimer
  { c with
    streams := close (close c.streams c.eventSource) c.streamAbort
    eventSource := none
    streamAbort := none
    streamState := "SSE idle".toList }

/-- The URL both kinds of stream are made for. -/
def streamUrl (c : Connection) : Str := apiUrl c.apiBase "/hits/stream".toList

/-- A new object. -/
def addStream (c : Connection) (kind : StreamKind) : Connection :=
  { c with
    streams := c.streams ++ [⟨⟨c.streams.length, kind, .connecting, []⟩, c.streamUrl, false⟩] }

/-- `openStream`, when `new EventSource` does not throw.  `timer` is what `setTimeout` returns. -/
def openStream (c : Connection) (timer : Nat) : Connection :=
  let c := c.closeStream
  { c.addStream .eventSource with
    eventSource := some c.streams.length
    streamState := "SSE connecting".toList
    timers := c.timers ++ [(timer, c.streams.length)]
    streamReadyTimer := timer }

/-- `openFetchStream`, up to its `fetch`. -/
def openFetchStream (c : Connection) : Connection :=
  { c.addStream .fetch with
    streamAbort := some c.streams.length
    streamState := "SSE fetch".toList }

/-- `connect`, up to its requests. -/
def connect (c : Connection) (r : Nat) : Connection :=
  let base := jsTrim c.input
  let c := { c with apiBase := if base = [] then defaultBase else base }.closeStream
  { c with loads := Function.update c.loads r (.requested .connect c.hitLimit) }

/-- The timer of `openStream` gives the source up. -/
def closeSource (c : Connection) (source : Nat) : Connection :=
  { c with streams := close c.streams (some source), eventSource := none }

/-- The page with another state of a load. -/
def setLoad (c : Connection) (r : Nat) (load : Load) : Connection :=
  { c with loads := Function.update c.loads r load }

/-- The page after something has happened to an object. -/
def setStream (c : Connection) (n : Nat) (o : StreamObject) : Connection :=
  { c with streams := c.streams.set n o }

/-- The handlers of `open` and `ready` of a source clear the timer; a `fetch` has none. -/
def showLive (c : Connection) (kind : StreamKind) : Connection :=
  let c := match kind with
    | .eventSource => c.clearTimeout c.streamReadyTimer
    | .fetch => c
  { c with streamState := "SSE live".toList }

/-- What the page shows when a stream breaks. -/
def brokenText : StreamKind → Str
  | .eventSource => "SSE closed".toList
  | .fetch => "SSE disconnected".toList

/-! ## Steps -/

/-- What the page does on its own, or the browser. -/
inductive Action
  | /-- The user edits the address of the server. -/
    inputEdited (input : Str)
  | hitLimitSet (limit : Int)
  | requested (r : Nat) (origin : Origin)
  | refused (r : Nat)
  | loaded (r : Nat)
  | opened (r timer : Nat)
  | /-- `new EventSource` throws. -/
    notOpened (r : Nat)
  | /-- A timer fires and falls back to `fetch`. -/
    reopened (timer : Nat)
  | /-- A timer fires and does nothing. -/
    timedOut (timer : Nat)
  | /-- The response of a stream arrives. -/
    live (n : Nat)
  | /-- The handler of a `ready` event. -/
    ready (n : Nat)
  | appended (n : Nat) (hit : Hit)
  | /-- A source has lost its connection, and connects again. -/
    lost (n : Nat)
  | /-- A source or a `fetch` gives up. -/
    failed (n : Nat)
  | /-- The body of a `fetch` ends. -/
    ended (n : Nat)
  | cleared

inductive Event
  | action (a : Action)
  | answered (r : Nat) (limit : Option Nat) (answer : List Hit)
  | subscribed (n : Nat)
  | written (n : Nat) (hit : Hit)

inductive Step : Connection → Event → Connection → Prop
  | editInput {c : Connection} {input : Str} :
      Step c (.action (.inputEdited input)) { c with input }
  | setHitLimit {c : Connection} {limit : Int} :
      Step c (.action (.hitLimitSet limit)) { c with hitLimit := limit }
  | connect {c : Connection} {r : Nat} :
      c.loads r = .idle → Step c (.action (.requested r .connect)) (c.connect r)
  | load {c : Connection} {r : Nat} {origin : Origin} :
      c.loads r = .idle → origin ≠ .connect →
      Step c (.action (.requested r origin)) (c.setLoad r (.requested origin c.hitLimit))
  | answer {c : Connection} {r : Nat} {origin : Origin} {limit : Nat} {answer : List Hit} :
      c.loads r = .requested origin limit →
      Step c (.answered r (some limit) answer) (c.setLoad r (.answered origin (some answer)))
  | answerOther {c : Connection} {r : Nat} {limit : Option Nat} {answer : List Hit} :
      c.loads r = .idle → Step c (.answered r limit answer) c
  | refuse {c : Connection} {r : Nat} {origin : Origin} {limit : Int} :
      c.loads r = .requested origin limit →
      Step c (.action (.refused r)) (c.setLoad r (.answered origin none))
  | replace {c : Connection} {r : Nat} {origin : Origin} {answer : List Hit} :
      c.loads r = .answered origin (some answer) →
      Step c (.action (.loaded r))
        { c.setLoad r (if origin = .connect then .loaded else .done) with hits := answer }
  | fail {c : Connection} {r : Nat} {origin : Origin} :
      c.loads r = .answered origin none → Step c (.action (.loaded r)) (c.setLoad r .done)
  | openStream {c : Connection} {r timer : Nat} :
      c.loads r = .loaded →
      Step c (.action (.opened r timer)) ((c.setLoad r .done).openStream timer)
  | openStreamThrows {c : Connection} {r : Nat} :
      c.loads r = .loaded → Step c (.action (.notOpened r)) (c.setLoad r .done).closeStream
  | openFetchStream {c : Connection} {timer source : Nat} {o : StreamObject} :
      (timer, source) ∈ c.timers → c.streams[source]? = some o →
      c.eventSource = some source → o.isOpen = false →
      Step c (.action (.reopened timer))
        ((c.clearTimeout timer).closeSource source).openFetchStream
  | timeOut {c : Connection} {timer source : Nat} {o : StreamObject} :
      (timer, source) ∈ c.timers → c.streams[source]? = some o →
      ¬ (c.eventSource = some source ∧ o.isOpen = false) →
      Step c (.action (.timedOut timer)) (c.clearTimeout timer)
  | live {c : Connection} {n : Nat} {o : StreamObject} :
      c.streams[n]? = some o → o.closed = false → o.phase = .subscribed →
      Step c (.action (.live n)) ((c.setStream n { o with phase := .live }).showLive o.kind)
  | ready {c : Connection} {n : Nat} {o : StreamObject} :
      c.streams[n]? = some o → o.isOpen = true →
      Step c (.action (.ready n)) (c.showLive o.kind)
  | append {c : Connection} {n : Nat} {o : StreamObject} {hit : Hit} {rest : List Hit} :
      c.streams[n]? = some o → o.isOpen = true → o.wire = hit :: rest →
      Step c (.action (.appended n hit)) { c.setStream n { o with wire := rest } with
        hits := appendHit c.hitLimit c.hits hit }
  | lose {c : Connection} {n : Nat} {o : StreamObject} :
      c.streams[n]? = some o → o.closed = false → o.kind = .eventSource →
      Step c (.action (.lost n)) { c.setStream n { o with phase := .connecting, wire := [] } with
        streamState := "SSE reconnecting".toList }
  | giveUp {c : Connection} {n : Nat} {o : StreamObject} :
      c.streams[n]? = some o → o.closed = false →
      Step c (.action (.failed n)) { c.setStream n { o with closed := true } with
        streamState := brokenText o.kind }
  | finish {c : Connection} {n : Nat} {o : StreamObject} :
      c.streams[n]? = some o → o.isOpen = true → o.kind = .fetch →
      Step c (.action (.ended n)) (c.setStream n { o with closed := true })
  | clear {c : Connection} : Step c (.action .cleared) { c with hits := [] }
  | /-- The server subscribes a stream, whether the page still reads it or not. -/
    subscribe {c : Connection} {n : Nat} {o : StreamObject} :
      c.streams[n]? = some o → o.phase = .connecting →
      Step c (.subscribed n) (c.setStream n { o with phase := .subscribed })
  | write {c : Connection} {n : Nat} {o : StreamObject} {hit : Hit} :
      c.streams[n]? = some o →
      Step c (.written n hit) (c.setStream n { o with wire := o.wire ++ [hit] })

/-! ## The invariant -/

/-- The object can still bring a hit. -/
def Listening (c : Connection) (n : Nat) : Prop :=
  ∃ o, c.streams[n]? = some o ∧ o.closed = false

/-- **The invariant of the streams.** -/
structure Tidy (c : Connection) : Prop where
  numbered : ∀ (n : Nat) (o : StreamObject), c.streams[n]? = some o → o.number = n
  /-- The page holds what it listens to. -/
  held : ∀ (n : Nat) (o : StreamObject), c.streams[n]? = some o → o.closed = false →
    (c.eventSource = some n ∨ c.streamAbort = some n) ∧ o.url = c.streamUrl
  exclusive : c.eventSource = none ∨ c.streamAbort = none
  source : ∀ n, c.eventSource = some n → ∃ o, c.streams[n]? = some o ∧ o.kind = .eventSource
  fetch : ∀ n, c.streamAbort = some n → ∃ o, c.streams[n]? = some o ∧ o.kind = .fetch
  /-- A timer that has not fired is the last one, and for the source of the page. -/
  timers : ∀ timer n, (timer, n) ∈ c.timers →
    timer = c.streamReadyTimer ∧ c.eventSource = some n
  waiting : ∀ timer n, (timer, n) ∈ c.timers → ∀ o, c.streams[n]? = some o → o.phase ≠ .live
  idle : c.streamState = "SSE idle".toList ↔ c.eventSource = none ∧ c.streamAbort = none

/-- The page listens to nothing. -/
structure Quiet (c : Connection) : Prop where
  numbered : ∀ (n : Nat) (o : StreamObject), c.streams[n]? = some o → o.number = n
  closed : ∀ (n : Nat) (o : StreamObject), c.streams[n]? = some o → o.closed = true
  eventSource : c.eventSource = none
  streamAbort : c.streamAbort = none
  timers : c.timers = []

variable {c c' : Connection} {n : Nat} {o : StreamObject}

theorem Quiet.tidy (h : Quiet c) (hidle : c.streamState = "SSE idle".toList) : Tidy c where
  numbered := h.numbered
  held n o ho hopen := by
    rw [h.closed n o ho] at hopen
    cases hopen
  exclusive := .inl h.eventSource
  source n hn := by
    rw [h.eventSource] at hn
    cases hn
  fetch n hn := by
    rw [h.streamAbort] at hn
    cases hn
  timers timer n hmem := by
    rw [h.timers] at hmem
    cases hmem
  waiting timer n hmem := by
    rw [h.timers] at hmem
    cases hmem
  idle := ⟨fun _ ↦ ⟨h.eventSource, h.streamAbort⟩, fun _ ↦ hidle⟩

theorem quiet_initial (stored : Option Str) : Quiet (.initial stored) where
  numbered := by simp [initial]
  closed := by simp [initial]
  eventSource := rfl
  streamAbort := rfl
  timers := rfl

/-! ## Closing -/

/-- An object after `close`. -/
theorem getElem?_close {streams : List StreamObject} {held : Option Nat}
    (h : (close streams held)[n]? = some o) :
    ∃ o', streams[n]? = some o' ∧ o.number = o'.number ∧ o.kind = o'.kind ∧
      (o'.closed = true → o.closed = true) ∧ (held = some n → o.closed = true) := by
  cases held with
  | none => exact ⟨o, h, rfl, rfl, id, fun hn ↦ by cases hn⟩
  | some m =>
      rw [close, List.getElem?_modify] at h
      obtain ⟨o', ho', rfl⟩ := Option.map_eq_some_iff.mp h
      refine ⟨o', ho', ?_⟩
      by_cases hm : m = n
      · rw [if_pos hm]
        exact ⟨rfl, rfl, fun _ ↦ rfl, fun _ ↦ rfl⟩
      · rw [if_neg hm]
        exact ⟨rfl, rfl, id, fun hn ↦ absurd (Option.some.inj hn) hm⟩

/-- Every timer that is left is the last one. -/
theorem Tidy.clearTimeout_timers (h : Tidy c) :
    (c.clearTimeout c.streamReadyTimer).timers = [] := by
  refine List.filter_eq_nil_iff.mpr fun p hp ↦ ?_
  simp [(h.timers p.1 p.2 hp).1]

/-- **`closeStream` closes everything the page listens to.** -/
theorem Tidy.closeStream (h : Tidy c) : Quiet c.closeStream where
  numbered n o ho := by
    obtain ⟨o', ho', hnumber, -⟩ := getElem?_close ho
    obtain ⟨o'', ho'', hnumber', -⟩ := getElem?_close ho'
    exact (hnumber.trans hnumber').trans (h.numbered n o'' ho'')
  closed n o ho := by
    obtain ⟨o', ho', -, -, hkept, habort⟩ := getElem?_close ho
    obtain ⟨o'', ho'', -, -, hkept', hsource⟩ := getElem?_close ho'
    cases hopen : o''.closed with
    | true => exact hkept (hkept' hopen)
    | false =>
        rcases (h.held n o'' ho'' hopen).1 with hn | hn
        · exact hkept (hsource hn)
        · exact habort hn
  eventSource := rfl
  streamAbort := rfl
  timers := h.clearTimeout_timers

/-! ## Opening -/

/-- The objects after a new one was made. -/
theorem getElem?_snoc {streams : List StreamObject} {new : StreamObject}
    (h : (streams ++ [new])[n]? = some o) :
    streams[n]? = some o ∨ n = streams.length ∧ o = new := by
  rw [List.getElem?_append] at h
  split at h <;> rename_i hlt
  · exact .inl h
  · rw [List.getElem?_singleton] at h
    split at h <;> rename_i hzero
    · exact .inr ⟨by omega, (Option.some.inj h).symm⟩
    · cases h

theorem Quiet.of_append (h : Quiet c) {new : StreamObject}
    (hn : (c.streams ++ [new])[n]? = some o) (hopen : o.closed = false) :
    n = c.streams.length ∧ o = new := by
  rcases getElem?_snoc hn with hold | hnew
  · rw [h.closed n o hold] at hopen
    cases hopen
  · exact hnew

theorem Quiet.numbered_append (h : Quiet c) {new : StreamObject}
    (hnew : new.number = c.streams.length) (hn : (c.streams ++ [new])[n]? = some o) :
    o.number = n := by
  rcases getElem?_snoc hn with hold | ⟨rfl, rfl⟩
  · exact h.numbered n o hold
  · exact hnew

/-- `openStream` leaves one new source. -/
theorem Tidy.openStream (h : Tidy c) (timer : Nat) : Tidy (c.openStream timer) := by
  have hquiet := h.closeStream
  rw [Connection.openStream]
  generalize c.closeStream = d at hquiet
  exact {
    numbered := fun n o ho ↦ hquiet.numbered_append rfl ho
    held := fun n o ho hopen ↦ by
      obtain ⟨rfl, rfl⟩ := hquiet.of_append ho hopen
      exact ⟨.inl rfl, rfl⟩
    exclusive := .inr hquiet.streamAbort
    source := fun n hn ↦ by
      obtain rfl := Option.some.inj hn
      exact ⟨_, List.getElem?_concat_length, rfl⟩
    fetch := fun n hn ↦ by
      have hnone : some n = none := hn.symm.trans hquiet.streamAbort
      cases hnone
    timers := fun timer' n hmem ↦ by
      have hone : (timer', n) ∈ [] ++ [(timer, d.streams.length)] := hquiet.timers ▸ hmem
      obtain ⟨rfl, rfl⟩ := Prod.mk.inj (List.mem_singleton.mp hone)
      exact ⟨rfl, rfl⟩
    waiting := fun timer' n hmem o ho ↦ by
      have hone : (timer', n) ∈ [] ++ [(timer, d.streams.length)] := hquiet.timers ▸ hmem
      obtain ⟨rfl, rfl⟩ := Prod.mk.inj (List.mem_singleton.mp hone)
      obtain rfl := Option.some.inj (List.getElem?_concat_length.symm.trans ho)
      simp
    idle := ⟨fun htext ↦ absurd htext (show "SSE connecting".toList ≠ _ by decide),
      fun hnone ↦ by cases hnone.1⟩ }

/-- `openFetchStream` leaves one new `fetch`. -/
theorem Quiet.openFetchStream (h : Quiet c) : Tidy c.openFetchStream where
  numbered n o ho := h.numbered_append rfl ho
  held n o ho hopen := by
    obtain ⟨rfl, rfl⟩ := h.of_append ho hopen
    exact ⟨.inr rfl, rfl⟩
  exclusive := .inl h.eventSource
  source n hn := by
    have hnone : some n = none := hn.symm.trans h.eventSource
    cases hnone
  fetch n hn := by
    obtain rfl := Option.some.inj hn
    exact ⟨_, List.getElem?_concat_length, rfl⟩
  timers timer n hmem := by
    have hnil : (timer, n) ∈ [] := h.timers ▸ hmem
    cases hnil
  waiting timer n hmem := by
    have hnil : (timer, n) ∈ [] := h.timers ▸ hmem
    cases hnil
  idle := ⟨fun htext ↦ absurd htext (show "SSE fetch".toList ≠ _ by decide),
    fun hnone ↦ by cases hnone.2⟩

/-- The source that is given up is all there is. -/
theorem Tidy.closeSource (h : Tidy c) {timer source : Nat} (hmem : (timer, source) ∈ c.timers) :
    Quiet ((c.clearTimeout timer).closeSource source) := by
  obtain ⟨rfl, hsource⟩ := h.timers timer source hmem
  have habort := h.exclusive.resolve_left (by rw [hsource]; simp)
  have hget : ∀ {n : Nat} {o : StreamObject}, (close c.streams (some source))[n]? = some o → _ :=
    getElem?_close
  refine ⟨fun n o ho ↦ ?_, fun n o ho ↦ ?_, rfl, habort, h.clearTimeout_timers⟩
  · obtain ⟨o', ho', hnumber, -⟩ := hget ho
    exact hnumber.trans (h.numbered n o' ho')
  · obtain ⟨o', ho', -, -, hkept, hclosed⟩ := hget ho
    cases hopen : o'.closed with
    | true => exact hkept hopen
    | false =>
        rcases (h.held n o' ho' hopen).1 with hn | hn
        · exact hclosed (hsource.symm.trans hn)
        · rw [habort] at hn
          cases hn

/-! ## Reading -/

/-- Something that happens to one object. -/
theorem Tidy.setStream (h : Tidy c) (ho : c.streams[n]? = some o) {o' : StreamObject}
    (hnumber : o'.number = o.number) (hkind : o'.kind = o.kind) (hurl : o'.url = o.url)
    (hclosed : o'.closed = false → o.closed = false)
    (hphase : o'.phase = .live → o.phase = .live ∨ c.timers = []) : Tidy (c.setStream n o') := by
  have hget : ∀ {m : Nat} {p : StreamObject}, (c.setStream n o').streams[m]? = some p →
      n = m ∧ p = o' ∨ c.streams[m]? = some p := by
    intro m p hp
    rw [Connection.setStream, List.getElem?_set] at hp
    split at hp
    · split at hp
      · exact .inl ⟨‹n = m›, (Option.some.inj hp).symm⟩
      · cases hp
    · exact .inr hp
  have hkept : ∀ {m : Nat} {p : StreamObject}, c.streams[m]? = some p →
      ∃ q, (c.setStream n o').streams[m]? = some q ∧ q.kind = p.kind := by
    intro m p hp
    by_cases hm : n = m
    · subst hm
      obtain rfl := Option.some.inj (ho.symm.trans hp)
      exact ⟨o', List.getElem?_set_self (List.getElem?_eq_some_iff.mp ho).1, hkind⟩
    · exact ⟨p, (List.getElem?_set_ne hm).trans hp, rfl⟩
  exact {
    numbered := fun m p hp ↦ by
      rcases hget hp with ⟨rfl, rfl⟩ | hold
      · exact hnumber.trans (h.numbered _ _ ho)
      · exact h.numbered m p hold
    held := fun m p hp hopen ↦ by
      rcases hget hp with ⟨rfl, rfl⟩ | hold
      · obtain ⟨hheld, hat⟩ := h.held _ _ ho (hclosed hopen)
        exact ⟨hheld, hurl.trans hat⟩
      · exact h.held m p hold hopen
    exclusive := h.exclusive
    source := fun m hm ↦ by
      obtain ⟨p, hp, hsource⟩ := h.source m hm
      obtain ⟨q, hq, hsame⟩ := hkept hp
      exact ⟨q, hq, hsame.trans hsource⟩
    fetch := fun m hm ↦ by
      obtain ⟨p, hp, hfetch⟩ := h.fetch m hm
      obtain ⟨q, hq, hsame⟩ := hkept hp
      exact ⟨q, hq, hsame.trans hfetch⟩
    timers := h.timers
    waiting := fun timer m hmem p hp hlive ↦ by
      rcases hget hp with ⟨rfl, rfl⟩ | hold
      · rcases hphase hlive with hold | hnil
        · exact h.waiting timer _ hmem o ho hold
        · have hnone : (timer, n) ∈ [] := hnil ▸ hmem
          cases hnone
      · exact h.waiting timer m hmem p hold hlive
    idle := h.idle }

/-- The page holds something. -/
theorem Tidy.not_idle (h : Tidy c) (ho : c.streams[n]? = some o) (hopen : o.closed = false) :
    ¬ (c.eventSource = none ∧ c.streamAbort = none) := by
  rintro ⟨hsource, habort⟩
  rcases (h.held n o ho hopen).1 with hn | hn
  · rw [hsource] at hn
    cases hn
  · rw [habort] at hn
    cases hn

/-- Another text. -/
theorem Tidy.setText (h : Tidy c) (ho : c.streams[n]? = some o) (hopen : o.closed = false)
    {text : Str} (htext : text ≠ "SSE idle".toList) : Tidy { c with streamState := text } where
  numbered := h.numbered
  held := h.held
  exclusive := h.exclusive
  source := h.source
  fetch := h.fetch
  timers := h.timers
  waiting := h.waiting
  idle := ⟨fun heq ↦ absurd heq htext, fun hnone ↦ absurd hnone (h.not_idle ho hopen)⟩

theorem Tidy.clearTimeout (h : Tidy c) (timer : Nat) : Tidy (c.clearTimeout timer) where
  numbered := h.numbered
  held := h.held
  exclusive := h.exclusive
  source := h.source
  fetch := h.fetch
  timers timer' n hmem := h.timers timer' n (List.mem_of_mem_filter hmem)
  waiting timer' n hmem := h.waiting timer' n (List.mem_of_mem_filter hmem)
  idle := h.idle

/-- A stream that is live has no timer. -/
theorem Tidy.showLive (h : Tidy c) (ho : c.streams[n]? = some o) (hopen : o.closed = false) :
    Tidy (c.showLive o.kind) ∧ (c.showLive o.kind).timers = [] := by
  have htext : "SSE live".toList ≠ "SSE idle".toList := by decide
  cases hkind : o.kind with
  | eventSource => exact ⟨(h.clearTimeout _).setText ho hopen htext, h.clearTimeout_timers⟩
  | fetch =>
      refine ⟨h.setText ho hopen htext, List.eq_nil_iff_forall_not_mem.mpr fun p hp ↦ ?_⟩
      have hsource := (h.timers p.1 p.2 hp).2
      have habort := h.exclusive.resolve_left (by rw [hsource]; simp)
      rcases (h.held n o ho hopen).1 with hn | hn
      · obtain ⟨o', ho', hother⟩ := h.source n hn
        obtain rfl := Option.some.inj (ho.symm.trans ho')
        rw [hkind] at hother
        cases hother
      · rw [habort] at hn
        cases hn

/-! ## Runs -/

/-- What is not about streams. -/
theorem Tidy.congr (h : Tidy c) (hapi : c'.apiBase = c.apiBase) (hstreams : c'.streams = c.streams)
    (hsource : c'.eventSource = c.eventSource) (habort : c'.streamAbort = c.streamAbort)
    (htimer : c'.streamReadyTimer = c.streamReadyTimer) (htimers : c'.timers = c.timers)
    (htext : c'.streamState = c.streamState) : Tidy c' := by
  cases c
  cases c'
  subst hapi hstreams hsource habort htimer htimers htext
  exact ⟨h.numbered, h.held, h.exclusive, h.source, h.fetch, h.timers, h.waiting, h.idle⟩

theorem Tidy.setLoad (h : Tidy c) (r : Nat) (load : Load) : Tidy (c.setLoad r load) :=
  h.congr rfl rfl rfl rfl rfl rfl rfl

/-- **The step lemma.** -/
theorem Tidy.step (h : Tidy c) {e : Event} (hstep : Step c e c') : Tidy c' := by
  cases hstep with
  | editInput | setHitLimit | load _ _ | answer _ | refuse _ | replace _ | fail _ | clear =>
      exact h.congr rfl rfl rfl rfl rfl rfl rfl
  | answerOther _ => exact h
  | connect hload =>
      have hquiet : Quiet c.closeStream := h.closeStream
      exact Quiet.tidy ⟨hquiet.numbered, hquiet.closed, rfl, rfl, hquiet.timers⟩ rfl
  | openStream hload => exact (h.setLoad _ _).openStream _
  | openStreamThrows hload => exact (h.setLoad _ _).closeStream.tidy rfl
  | openFetchStream hmem ho hsource hopen => exact (h.closeSource hmem).openFetchStream
  | timeOut hmem ho hguard => exact h.clearTimeout _
  | @live n o ho hopen hphase =>
      obtain ⟨hshow, htimers⟩ := h.showLive ho hopen
      cases hkind : o.kind with
      | eventSource | fetch =>
          rw [hkind] at hshow htimers
          exact hshow.setStream ho rfl hkind.symm rfl id fun _ ↦ .inr htimers
  | ready ho hopen =>
      rw [StreamObject.isOpen, Bool.and_eq_true, Bool.not_eq_true'] at hopen
      exact (h.showLive ho hopen.1).1
  | @append n o hit rest ho hopen hwire =>
      have hset : Tidy (c.setStream n { o with wire := rest }) :=
        h.setStream ho rfl rfl rfl id .inl
      exact hset.congr rfl rfl rfl rfl rfl rfl rfl
  | @lose n o ho hopen hkind =>
      have htext : "SSE reconnecting".toList ≠ "SSE idle".toList := by decide
      exact (h.setText ho hopen htext).setStream ho rfl rfl rfl id fun hlive ↦ by cases hlive
  | @giveUp n o ho hopen =>
      have htext : brokenText o.kind ≠ "SSE idle".toList := by
        cases o.kind <;> exact by decide
      exact (h.setText ho hopen htext).setStream ho rfl rfl rfl
        (fun hclosed ↦ by cases hclosed) .inl
  | finish ho hopen hkind =>
      exact h.setStream ho rfl rfl rfl (fun hclosed ↦ by cases hclosed) .inl
  | subscribe ho hphase => exact h.setStream ho rfl rfl rfl id fun hlive ↦ by cases hlive
  | write ho => exact h.setStream ho rfl rfl rfl id .inl

/-- **The run lemma.** -/
theorem tidy {stored : Option Str} {es : List Event} (hrun : Run Step (.initial stored) es c) :
    Tidy c := by
  induction hrun with
  | nil => exact (quiet_initial stored).tidy rfl
  | snoc _ hstep ih => exact ih.step hstep

/-- What every run keeps to. -/
structure StreamLaws (c : Connection) : Prop where
  /-- At most one object can bring a hit. -/
  one : ∀ m n, c.Listening m → c.Listening n → m = n
  /-- It is for the server the page shows. -/
  url : ∀ (n : Nat) (o : StreamObject), c.streams[n]? = some o → o.closed = false →
    o.url = apiUrl c.apiBase "/hits/stream".toList
  /-- The page can close it. -/
  closed : ∀ n, ¬ c.closeStream.Listening n
  /-- At most one timer runs. -/
  timer : ∀ p ∈ c.timers, ∀ q ∈ c.timers, p = q
  /-- When it fires, it finds its source in place and not open. -/
  fires : ∀ timer n, (timer, n) ∈ c.timers →
    c.eventSource = some n ∧ ∃ o, c.streams[n]? = some o ∧ o.isOpen = false
  /-- The page says that it has no stream when it has none. -/
  idle : c.streamState = "SSE idle".toList ↔ c.eventSource = none ∧ c.streamAbort = none

theorem Quiet.not_listening (h : Quiet c) (n : Nat) : ¬ c.Listening n := by
  rintro ⟨o, ho, hopen⟩
  rw [h.closed n o ho] at hopen
  cases hopen

theorem Tidy.laws (h : Tidy c) : StreamLaws c where
  one m n hm hn := by
    obtain ⟨o, ho, hopen⟩ := hm
    obtain ⟨p, hp, hopen'⟩ := hn
    rcases h.exclusive with hnone | hnone
    · have hm := (h.held m o ho hopen).1.resolve_left (by simp [hnone])
      have hn := (h.held n p hp hopen').1.resolve_left (by simp [hnone])
      exact Option.some.inj (hm.symm.trans hn)
    · have hm := (h.held m o ho hopen).1.resolve_right (by simp [hnone])
      have hn := (h.held n p hp hopen').1.resolve_right (by simp [hnone])
      exact Option.some.inj (hm.symm.trans hn)
  url n o ho hopen := (h.held n o ho hopen).2
  closed := h.closeStream.not_listening
  timer p hp q hq := by
    obtain ⟨hfirst, hsource⟩ := h.timers p.1 p.2 hp
    obtain ⟨hsecond, hsource'⟩ := h.timers q.1 q.2 hq
    exact Prod.ext (hfirst.trans hsecond.symm) (Option.some.inj (hsource.symm.trans hsource'))
  fires timer n hmem := by
    obtain ⟨-, hsource⟩ := h.timers timer n hmem
    obtain ⟨o, ho, -⟩ := h.source n hsource
    refine ⟨hsource, o, ho, ?_⟩
    rw [StreamObject.isOpen, Bool.and_eq_false_iff, beq_eq_false_iff_ne]
    exact .inr (h.waiting timer n hmem o ho)
  idle := h.idle

/-! ## What was opened before -/

/-- The event makes an object. -/
def Event.makes : Event → Bool
  | .action (.opened _ _) | .action (.reopened _) => true
  | _ => false

/-- The number of objects that were made. -/
def made (es : List Event) : Nat := es.countP Event.makes

/-- The first objects are closed. -/
def Gone (k : Nat) (c : Connection) : Prop :=
  ∀ (n : Nat) (o : StreamObject), c.streams[n]? = some o → n < k → o.closed = true

variable {k : Nat}

theorem gone_close {streams : List StreamObject} (held : Option Nat)
    (h : ∀ (n : Nat) (o : StreamObject), streams[n]? = some o → n < k → o.closed = true) :
    ∀ (n : Nat) (o : StreamObject), (close streams held)[n]? = some o → n < k →
      o.closed = true := by
  intro n o ho hn
  obtain ⟨o', ho', -, -, hkept, -⟩ := getElem?_close ho
  exact hkept (h n o' ho' hn)

theorem Gone.closeStream (h : Gone k c) : Gone k c.closeStream :=
  gone_close _ (gone_close _ h)

theorem Gone.closeSource (h : Gone k c) (source : Nat) : Gone k (c.closeSource source) :=
  gone_close (some source) h

theorem Gone.addStream (h : Gone k c) (hle : k ≤ c.streams.length) (kind : StreamKind) :
    Gone k (c.addStream kind) := by
  intro n o ho hn
  rcases getElem?_snoc ho with hold | ⟨rfl, -⟩
  · exact h n o hold hn
  · omega

theorem Gone.setStream (h : Gone k c) (ho : c.streams[n]? = some o) {o' : StreamObject}
    (hclosed : o.closed = true → o'.closed = true) : Gone k (c.setStream n o') := by
  intro m p hp hm
  rw [Connection.setStream, List.getElem?_set] at hp
  split at hp <;> rename_i hnm
  · split at hp
    · obtain rfl := Option.some.inj hp
      exact hclosed (h n o ho (hnm ▸ hm))
    · cases hp
  · exact h m p hp hm

theorem length_close (streams : List StreamObject) (held : Option Nat) :
    (close streams held).length = streams.length := by
  cases held with
  | none => rfl
  | some n => exact List.length_modify ..

theorem length_closeStream (c : Connection) : c.closeStream.streams.length = c.streams.length :=
  (length_close _ _).trans (length_close _ _)

theorem length_closeSource (c : Connection) (source : Nat) :
    (c.closeSource source).streams.length = c.streams.length :=
  length_close c.streams (some source)

/-- Every event of a run makes an object or leaves their number. -/
theorem length_streams_of_step {e : Event} (hstep : Step c e c') :
    c'.streams.length = c.streams.length + if e.makes then 1 else 0 := by
  cases hstep with
  | connect hload => exact length_closeStream _
  | openStream hload =>
      exact List.length_append.trans (congrArg (· + 1) (length_closeStream _))
  | openStreamThrows hload => exact length_closeStream _
  | openFetchStream hmem ho hsource hopen =>
      exact List.length_append.trans (congrArg (· + 1) (length_closeSource _ _))
  | @live n o ho hopen hphase => cases hkind : o.kind <;> exact List.length_set
  | @ready n o ho hopen => cases hkind : o.kind <;> rfl
  | append ho hopen hwire | lose ho hopen hkind | giveUp ho hopen | finish ho hopen hkind
  | subscribe ho hphase | write ho => exact List.length_set
  | _ => rfl

theorem length_streams {stored : Option Str} {es : List Event}
    (hrun : Run Step (.initial stored) es c) : c.streams.length = made es := by
  induction hrun with
  | nil => rfl
  | snoc _ hstep ih =>
      rw [length_streams_of_step hstep, ih, made, made, List.countP_append, List.countP_singleton]

/-- What is closed stays closed. -/
theorem Gone.step (h : Gone k c) (hle : k ≤ c.streams.length) {e : Event} (hstep : Step c e c') :
    Gone k c' := by
  cases hstep with
  | connect hload => exact Gone.closeStream (c := { c with apiBase := _ }) h
  | @openStream r timer hload =>
      have hclosed := Gone.closeStream (c := c.setLoad r .done) h
      exact hclosed.addStream ((length_closeStream _).symm ▸ hle) .eventSource
  | openStreamThrows hload => exact Gone.closeStream (c := c.setLoad _ .done) h
  | @openFetchStream timer source o hmem ho hsource hopen =>
      have hclosed := Gone.closeSource (c := c.clearTimeout timer) h source
      exact hclosed.addStream ((length_closeSource _ _).symm ▸ hle) .fetch
  | @live n o ho hopen hphase =>
      have hset : Gone k (c.setStream n { o with phase := .live }) := h.setStream ho id
      cases hkind : o.kind with
      | eventSource | fetch => rwa [hkind] at hset
  | @ready n o ho hopen => cases hkind : o.kind <;> exact h
  | append ho hopen hwire | lose ho hopen hkind | subscribe ho hphase | write ho =>
      exact h.setStream ho id
  | giveUp ho hopen | finish ho hopen hkind => exact h.setStream ho fun _ ↦ rfl
  | _ => exact h

theorem gone_of_run {es : List Event} (h : Gone k c) (hle : k ≤ c.streams.length)
    (hrun : Run Step c es c') : k ≤ c'.streams.length ∧ Gone k c' := by
  induction hrun with
  | nil => exact ⟨hle, h⟩
  | snoc _ hstep ih =>
      exact ⟨(length_streams_of_step hstep).symm ▸ ih.1.trans (Nat.le_add_right _ _),
        ih.2.step ih.1 hstep⟩

/-- After `connect` nothing is left of the streams before it. -/
theorem Tidy.gone_connect (h : Tidy c) {r : Nat}
    (hstep : Step c (.action (.requested r .connect)) c') : Gone c.streams.length c' := by
  cases hstep with
  | connect hload => exact fun n o ho _ ↦ h.closeStream.closed n o ho
  | load hload hother => exact absurd rfl hother

/-- **The page has one stream.**  Whatever calls of `connect` overlap, and whenever a timer fires
or a stream breaks, the laws hold; and a hit that comes after a call of `connect` comes from a
stream that was opened after it. -/
theorem one_stream {stored : Option Str} {es : List Event}
    (hrun : Run Step (.initial stored) es c) :
    StreamLaws c ∧ ∀ before r after, es = before ++ .action (.requested r .connect) :: after →
      ∀ n hit, .action (.appended n hit) ∈ after → made before ≤ n := by
  refine ⟨(tidy hrun).laws, ?_⟩
  rintro before r after rfl n hit hmem
  obtain ⟨early, late, rfl⟩ := List.append_of_mem hmem
  obtain ⟨c₀, c₁, hbefore, hconnect, hafter⟩ := hrun.split_event
  obtain ⟨c₂, c₃, hearly, happend, -⟩ := hafter.split_event
  have hkept := (length_streams_of_step hconnect).ge
  obtain ⟨-, hgone⟩ := gone_of_run ((tidy hbefore).gone_connect hconnect) hkept hearly
  rw [length_streams hbefore] at hgone
  cases happend with
  | append ho hopen hwire =>
      by_contra hlt
      rw [StreamObject.isOpen, hgone n _ ho (by omega)] at hopen
      cases hopen

/-- A page that connects twice, and gets a hit by its second stream. -/
theorem one_stream_twice : ∃ (es : List Event) (c : Connection) (hit : Hit),
    Run Step (.initial none) es c ∧ .action (.appended 1 hit) ∈ es ∧ c.hits = [hit] ∧
      StreamLaws c := by
  let hit : Hit := ⟨1, 7, 11, 12, 0, [], [], none, none⟩
  let connect : Nat → List Event := fun r ↦ [.action (.requested r .connect),
    .answered r (some 100) [], .action (.loaded r), .action (.opened r (r + 1))]
  let read : List Event := [.subscribed 1, .action (.live 1), .written 1 hit,
    .action (.appended 1 hit)]
  have hrun : ∃ c, Run Step (.initial none) (connect 0 ++ connect 1 ++ read) c ∧
      c.hits = [hit] := by
    refine ⟨_, .cons (.connect rfl) <| .cons (.answer rfl) <| .cons (.replace rfl) <|
      .cons (.openStream rfl) <| .cons (.connect rfl) <| .cons (.answer rfl) <|
      .cons (.replace rfl) <| .cons (.openStream rfl) <| .cons (.subscribe rfl rfl) <|
      .cons (.live rfl rfl rfl) <| .cons (.write rfl) <| .single (.append rfl rfl rfl), rfl⟩
  obtain ⟨c, hrun, hhits⟩ := hrun
  exact ⟨_, c, hit, hrun, by simp [read], hhits, (one_stream hrun).1⟩

end Connection

end Pwatch.Ui
