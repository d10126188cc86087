import Pwatch.Ui.Connection
import Pwatch.Ui.Hits

/-!
# The dashboard with its streams

`Pwatch.Ui.Hits` gives the page one stream, which is there or not.  The page that has objects,
two variables and a timer instead refines it: a run of the server with this page is a run
of the dashboard, with the same hits on the server and in the list (`refines_dashboard`).  What is
known of the list in the dashboard so holds for the page itself.

This is so while no source connects again on its own, which would subscribe a stream twice, and
`new EventSource` takes every address.
-/

namespace Pwatch.Ui

open Server

namespace Connection

/-! ## The page with one stream -/

/-- The object the page holds. -/
def held (c : Connection) : Option Nat := c.eventSource.or c.streamAbort

/-- The page that knows its stream. -/
def toPage (c : Connection) : Page where
  hitLimit := c.hitLimit
  hits := c.hits
  loads := c.loads
  stream := c.held.bind fun n ↦ (c.streams[n]?).map StreamObject.toStream
  streams := c.streams.length

/-- What is an action of the page with one stream. -/
def Action.toPage : Action → Option Page.Action
  | .hitLimitSet limit => some (.hitLimitSet limit)
  | .requested r origin => some (.requested r origin)
  | .refused r => some (.refused r)
  | .loaded r => some (.loaded r)
  | .opened r _ => some (.opened r)
  | .reopened _ => some .reopened
  | .live _ => some .live
  | .appended _ hit => some (.appended hit)
  | .cleared => some .cleared
  | .inputEdited _ | .notOpened _ | .timedOut _ | .ready _ | .lost _ | .failed _ | .ended _ => none

/-- No source connects again, and every source can be made. -/
def Action.Steady : Action → Prop
  | .lost _ | .notOpened _ => False
  | _ => True

namespace Event

/-- The same event for the page with one stream. -/
def toPage : Event → Option Page.Event
  | .action a => a.toPage.map .action
  | .answered r limit answer => some (.answered r limit answer)
  | .subscribed n => some (.subscribed n)
  | .written n hit => some (.written n hit)

def Steady : Event → Prop
  | .action a => a.Steady
  | .answered _ _ _ | .subscribed _ | .written _ _ => True

end Event

variable {c c' : Connection} {n : Nat} {o o' : StreamObject}

/-! ## The stream of the page -/

/-- What the page listens to it holds. -/
theorem Tidy.held_eq (h : Tidy c) (ho : c.streams[n]? = some o) (hopen : o.closed = false) :
    c.held = some n := by
  rcases (h.held n o ho hopen).1 with hn | hn
  · rw [Connection.held, hn, Option.some_or]
  · have hnone := h.exclusive.resolve_right (by rw [hn]; simp)
    rw [Connection.held, hnone, hn, Option.none_or]

theorem stream_toPage (hheld : c.held = some n) (ho : c.streams[n]? = some o) :
    c.toPage.stream = some o.toStream := by
  rw [toPage, hheld, Option.bind_some, ho, Option.map_some]

/-- Another object is not the stream of the page. -/
theorem Tidy.number_ne (h : Tidy c) (hheld : c.held ≠ some n) {stream : Stream}
    (hstream : c.toPage.stream = some stream) : stream.number ≠ n := by
  obtain ⟨m, hm, hobject⟩ := Option.bind_eq_some_iff.mp hstream
  obtain ⟨o, ho, rfl⟩ := Option.map_eq_some_iff.mp hobject
  rintro rfl
  exact hheld (hm.trans (congrArg some (h.numbered m o ho).symm))

/-- Something happens to the stream of the page. -/
theorem toPage_setStream (hheld : c.held = some n) (ho : c.streams[n]? = some o) :
    (c.setStream n o').toPage = { c.toPage with stream := some o'.toStream } := by
  have hlt : n < c.streams.length := (List.getElem?_eq_some_iff.mp ho).1
  have hstream := stream_toPage (c := c.setStream n o') hheld (List.getElem?_set_self hlt)
  exact Page.mk.injEq .. |>.mpr ⟨rfl, rfl, rfl, hstream, List.length_set⟩

/-- The stream of the page brings a hit. -/
theorem toPage_append (hheld : c.held = some n) (ho : c.streams[n]? = some o) (hits : List Hit) :
    ({ c.setStream n o' with hits } : Connection).toPage =
      { c.toPage with hits, stream := some o'.toStream } :=
  congrArg (fun p : Page ↦ { p with hits }) (toPage_setStream hheld ho)

/-- Something happens to another object. -/
theorem toPage_setStream_of_ne (hheld : c.held ≠ some n) :
    (c.setStream n o').toPage = c.toPage := by
  have hstream : (c.setStream n o').toPage.stream = c.toPage.stream := by
    change (c.held.bind fun m ↦ ((c.streams.set n o')[m]?).map _) = c.held.bind _
    refine Option.bind_congr fun m hm ↦ ?_
    rw [List.getElem?_set_ne fun heq : n = m ↦ hheld (heq ▸ hm)]
  exact Page.mk.injEq .. |>.mpr ⟨rfl, rfl, rfl, hstream, List.length_set⟩

/-- What does not touch the network data of an object does not touch the page. -/
theorem toPage_setStream_same (ho : c.streams[n]? = some o) (hsame : o'.toStream = o.toStream) :
    (c.setStream n o').toPage = c.toPage := by
  by_cases hheld : c.held = some n
  · rw [toPage_setStream hheld ho, hsame, ← stream_toPage hheld ho]
  · exact toPage_setStream_of_ne hheld

theorem toPage_showLive (c : Connection) (kind : StreamKind) :
    (c.showLive kind).toPage = c.toPage := by
  cases kind <;> rfl

theorem toPage_connect (c : Connection) (r : Nat) :
    (c.connect r).toPage =
      { c.toPage.setLoad r (.requested .connect c.hitLimit) with stream := none } :=
  Page.mk.injEq .. |>.mpr ⟨rfl, rfl, rfl, rfl, length_closeStream _⟩

/-- A new object that the page holds is its stream. -/
theorem stream_addStream (kind : StreamKind) {d : Connection}
    (hstreams : d.streams = (c.addStream kind).streams)
    (hheld : d.held = some c.streams.length) :
    d.toPage.stream = some ⟨c.streams.length, kind, .connecting, []⟩ := by
  have hget : d.streams[c.streams.length]? = some _ :=
    (congrArg (·[c.streams.length]?) hstreams).trans List.getElem?_concat_length
  exact stream_toPage hheld hget

theorem toPage_openStream (c : Connection) (timer : Nat) :
    (c.openStream timer).toPage = c.toPage.openStream .eventSource := by
  have hlength := length_closeStream c
  have hstream :=
    stream_addStream (c := c.closeStream) (d := c.openStream timer) .eventSource rfl rfl
  rw [hlength] at hstream
  exact Page.mk.injEq .. |>.mpr ⟨rfl, rfl, rfl, hstream,
    List.length_append.trans (congrArg (· + 1) hlength)⟩

/-- The page falls back to `fetch`. -/
theorem toPage_openFetchStream (c : Connection) (source : Nat) :
    (c.closeSource source).openFetchStream.toPage = c.toPage.openStream .fetch := by
  have hlength := length_closeSource c source
  have hstream := stream_addStream (c := c.closeSource source)
    (d := (c.closeSource source).openFetchStream) .fetch rfl rfl
  rw [hlength] at hstream
  exact Page.mk.injEq .. |>.mpr ⟨rfl, rfl, rfl, hstream,
    List.length_append.trans (congrArg (· + 1) hlength)⟩

/-! ## Steps -/

/-- **The step lemma.** -/
theorem Step.toPage (h : Tidy c) {e : Event} (hsteady : e.Steady) (hstep : Step c e c') :
    Takes Page.Step c.toPage e.toPage c'.toPage := by
  cases hstep with
  | editInput => exact .idle
  | setHitLimit => exact .acts .setHitLimit
  | connect hload =>
      rw [toPage_connect]
      exact .acts (.connect hload)
  | load hload hother => exact .acts (.load hload hother)
  | answer hload => exact .acts (.answer hload)
  | answerOther hload => exact .acts (.answerOther hload)
  | refuse hload => exact .acts (.refuse hload)
  | replace hload => exact .acts (.replace hload)
  | fail hload => exact .acts (.fail hload)
  | openStream hload =>
      rw [toPage_openStream]
      exact .acts (.openStream hload)
  | openStreamThrows hload => cases hsteady
  | @openFetchStream timer source o hmem ho hsource hopen =>
      have hheld : c.held = some source := by rw [Connection.held, hsource, Option.some_or]
      obtain ⟨o', ho', hkind⟩ := h.source source hsource
      have hphase := h.waiting timer source hmem o' ho'
      rw [toPage_openFetchStream]
      exact .acts (.openFetchStream (stream_toPage hheld ho') hkind hphase)
  | timeOut hmem ho hguard => exact .idle
  | @live n o ho hopen hphase =>
      have hheld := h.held_eq ho hopen
      rw [toPage_showLive, toPage_setStream hheld ho]
      exact .acts (.live (stream_toPage hheld ho) hphase)
  | ready ho hopen =>
      rw [toPage_showLive]
      exact .idle
  | @append n o hit rest ho hopen hwire =>
      rw [StreamObject.isOpen, Bool.and_eq_true, Bool.not_eq_true', beq_iff_eq] at hopen
      have hheld := h.held_eq ho hopen.1
      have happend : Page.Step c.toPage (.action (.appended hit)) _ :=
        .append (stream_toPage hheld ho) hopen.2 hwire
      exact (congrArg (Takes Page.Step c.toPage _) (toPage_append hheld ho _)).mpr (.acts happend)
  | lose ho hopen hkind => cases hsteady
  | @giveUp n o ho hopen =>
      have hpage : (c.setStream n { o with closed := true }).toPage = c.toPage :=
        toPage_setStream_same ho rfl
      exact hpage ▸ .idle
  | @finish n o ho hopen hkind =>
      have hpage : (c.setStream n { o with closed := true }).toPage = c.toPage :=
        toPage_setStream_same ho rfl
      exact hpage ▸ .idle
  | clear => exact .acts .clear
  | @subscribe n o ho hphase =>
      by_cases hheld : c.held = some n
      · rw [toPage_setStream hheld ho]
        obtain rfl := h.numbered n o ho
        exact .acts (.subscribe (stream_toPage hheld ho) hphase)
      · rw [toPage_setStream_of_ne hheld]
        exact .acts (.subscribeClosed (List.getElem?_eq_some_iff.mp ho).1
          fun stream hstream ↦ h.number_ne hheld hstream)
  | @write n o hit ho =>
      by_cases hheld : c.held = some n
      · rw [toPage_setStream hheld ho]
        obtain rfl := h.numbered n o ho
        exact .acts (.write (stream_toPage hheld ho))
      · rw [toPage_setStream_of_ne hheld]
        exact .acts (.writeClosed fun stream hstream ↦ h.number_ne hheld hstream)

/-- The page acts, or stands still. -/
theorem takes_toPage (h : Tidy c) {e : Option Event} (hsteady : ∀ x ∈ e, x.Steady)
    (htakes : Takes Step c e c') :
    Takes Page.Step c.toPage (e.bind Event.toPage) c'.toPage := by
  cases htakes with
  | idle => exact .idle
  | acts hstep => exact hstep.toPage h (hsteady _ rfl)

end Connection

/-! ## The server and the page -/

/-- The server, and a page with its streams. -/
structure Site where
  server : HitServer Client
  page : Connection

namespace Site

def initial (stored : Option Str) : Site where
  server := .initial
  page := .initial stored

inductive Event
  | server (e : HitServer.Event Client)
  | page (a : Connection.Action)

namespace Event

/-- The action of the server. -/
@[simp] def ofServer : Event → Option (HitServer.Event Client)
  | .server e => some e
  | .page _ => none

/-- The action of the page, or what the server does to it. -/
@[simp] def ofPage : Event → Option Connection.Event
  | .page a => some (.action a)
  | .server (.pipeline (.hits r limit answer)) => some (.answered r limit answer)
  | .server (.subscribed (.page n)) => some (.subscribed n)
  | .server (.received (.page n) hit) => some (.written n hit)
  | .server _ => none

/-- The same event in the dashboard. -/
def toDashboard : Event → Option Dashboard.Event
  | .server e => some (.server e)
  | .page a => a.toPage.map .page

/-- No source connects again, and every source can be made. -/
def Steady : Event → Prop
  | .server _ => True
  | .page a => a.Steady

end Event

variable {arch : Arch} {limit : Nat} {stored : Option Str} {es : List Event} {e : Event}
  {s t : Site}

variable (arch limit) in
/-- One action of the server, of the page, or of both. -/
structure Step (s : Site) (e : Event) (t : Site) : Prop where
  server : Takes (HitServer.Step arch limit) s.server e.ofServer t.server
  page : Takes Connection.Step s.page e.ofPage t.page

/-- The dashboard with one stream. -/
def toDashboard (s : Site) : Dashboard := ⟨s.server, s.page.toPage⟩

/-- What is asked of the steps of a dashboard, asked of the page with its streams. -/
def Allowed (ok : Dashboard → Dashboard.Event → Prop) (s : Site) (e : Event) : Prop :=
  ∀ d ∈ e.toDashboard, ok s.toDashboard d

/-- The page of a site is a page. -/
theorem tidy (hrun : Run (Step arch limit) (.initial stored) es s) : s.page.Tidy := by
  have hpage : Run Connection.Step _ (es.filterMap Event.ofPage) s.page :=
    hrun.part fun _ _ _ hstep ↦ hstep.page
  exact Connection.tidy hpage

/-- The server does the same to both pages. -/
theorem ofPage_server (e : HitServer.Event Client) :
    (Dashboard.Event.server e).ofPage = (Event.server e).ofPage.bind Connection.Event.toPage := by
  cases e with
  | pipeline e => cases e <;> rfl
  | subscribed client | received client hit => cases client <;> rfl
  | _ => rfl

theorem steady_ofPage {e : Event} (h : e.Steady) : ∀ x ∈ e.ofPage, x.Steady := by
  intro x hx
  cases e with
  | page a =>
      obtain rfl := Option.some.inj hx
      exact h
  | server e =>
      cases e with
      | pipeline e =>
          cases e <;> simp at hx
          subst hx
          trivial
      | subscribed client | received client hit =>
          cases client <;> simp at hx
          subst hx
          trivial
      | _ => simp at hx

/-- **The step lemma.** -/
theorem Step.toDashboard (h : s.page.Tidy) (hsteady : e.Steady) (hstep : Step arch limit s e t) :
    Takes (Dashboard.Step arch limit) s.toDashboard e.toDashboard t.toDashboard := by
  have hpage := Connection.takes_toPage h (steady_ofPage hsteady) hstep.page
  cases e with
  | server e =>
      rw [← ofPage_server] at hpage
      exact .acts ⟨hstep.server, hpage⟩
  | page a =>
      have hserver : t.server = s.server := hstep.server.eq_of_none
      change Takes Page.Step s.page.toPage (a.toPage.map .action) t.page.toPage at hpage
      rw [Site.toDashboard, Site.toDashboard, hserver, Event.toDashboard]
      cases ha : a.toPage with
      | none =>
          rw [ha] at hpage
          rw [hpage.eq_of_none]
          exact .idle
      | some b =>
          rw [ha] at hpage
          exact .acts ⟨.idle, hpage⟩

/-- **The run lemma.** -/
theorem run_toDashboard {ok : Dashboard → Dashboard.Event → Prop}
    (hrun : Run (Guarded (Step arch limit) (Allowed ok)) (.initial stored) es s)
    (hsteady : ∀ e ∈ es, e.Steady) :
    Run (Guarded (Dashboard.Step arch limit) ok) .initial (es.filterMap Event.toDashboard)
      s.toDashboard := by
  induction hrun with
  | nil => exact .nil
  | @snoc es s t e hrun hstep ih =>
      have htakes := hstep.2.toDashboard (tidy hrun.of_guarded) (hsteady e (by simp))
      have hok := hstep.1
      have hbefore := ih fun e he ↦ hsteady e (List.mem_append_left _ he)
      rw [filterMap_snoc]
      rw [Allowed] at hok
      generalize e.toDashboard = d at htakes hok
      generalize t.toDashboard = u at htakes
      cases htakes with
      | idle => simpa using hbefore
      | acts hdashboard => exact hbefore.snoc ⟨hok _ rfl, hdashboard⟩

/-- **The page with its streams refines the dashboard.**  A run of the server with the page, in
which no source connects again and each can be made, is a run of the dashboard, with the same
server and the same list of hits; what is asked of its steps is asked of the steps of the
dashboard.  So a list that is loaded in time has no gap and no hit twice. -/
theorem refines_dashboard {ok : Dashboard → Dashboard.Event → Prop}
    (hrun : Run (Guarded (Step arch limit) (Allowed ok)) (.initial stored) es s)
    (hsteady : ∀ e ∈ es, e.Steady) :
    Run (Guarded (Dashboard.Step arch limit) ok) .initial (es.filterMap Event.toDashboard)
        s.toDashboard ∧
      s.toDashboard.server = s.server ∧ s.toDashboard.page.hits = s.page.hits ∧
      ((∀ d e, ok d e → d.Timely e) →
        (∀ e ∈ es.filterMap Event.toDashboard, Dashboard.NoLag e) →
        Dashboard.Seamless (Dashboard.pushedHits (es.filterMap Event.toDashboard))
          s.page.hits) := by
  have hdashboard := run_toDashboard hrun hsteady
  refine ⟨hdashboard, rfl, rfl, fun htimely hlag ↦ ?_⟩
  have hguarded := hdashboard.mono fun d e d' hstep ↦ And.intro (htimely d e hstep.1) hstep.2
  exact Dashboard.seamless_of_infix hdashboard.of_guarded (Dashboard.fits hguarded hlag).hits_piece

theorem step_page {a : Connection.Action} {c : Connection}
    (h : Connection.Step s.page (.action a) c) : Step arch limit s (.page a) ⟨s.server, c⟩ :=
  ⟨.idle, .acts h⟩

/-- The page stands still while the server runs without it. -/
theorem run_of_server {hs : List (HitServer.Event Client)} {server : HitServer Client}
    (hrun : Run (HitServer.Step arch limit) s.server hs server)
    (hs_apart : ∀ e ∈ hs, (Event.server e).ofPage = none) :
    Run (Step arch limit) s (hs.map .server) ⟨server, s.page⟩ := by
  induction hrun with
  | nil => exact .nil
  | @snoc hs u u' e _ hstep ih =>
      rw [List.map_append, List.map_singleton]
      refine (ih fun e he ↦ hs_apart e (List.mem_append_left _ he)).snoc ⟨.acts hstep, ?_⟩
      rw [hs_apart e (by simp)]
      exact .idle

/-- A page that has connected, and to which the first hit comes. -/
theorem refines_dashboard_oneHit :
    ∃ es s, Run (Guarded (Step .aarch64 1) (Allowed fun _ _ ↦ True)) (.initial none) es s ∧
      s.page.streamState = "SSE live".toList ∧ s.page.hits = [Pipeline.oneHit] ∧
      Run (Guarded (Dashboard.Step .aarch64 1) fun _ _ ↦ True) .initial
        (es.filterMap Event.toDashboard) s.toDashboard := by
  let server : HitServer Client := .initial
  let locked : HitServer Client := { server with pipeline := { Pipeline.initial with
    lock := .reader 1 } }
  let subscribed : HitServer Client := { server with hitTx :=
    { sent := [], next := Function.update (fun _ ↦ none) (.page 0) (some 0) } }
  let c₁ := (Connection.initial none).connect 1
  let c₂ := c₁.setLoad 1 (.answered .connect (some []))
  let c₃ : Connection := { c₂.setLoad 1 .loaded with hits := [] }
  let c₄ := (c₃.setLoad 1 .done).openStream 1
  let new : StreamObject := ⟨⟨0, .eventSource, .connecting, []⟩, c₄.streamUrl, false⟩
  let o : StreamObject := { new with phase := .subscribed }
  let c₅ := c₄.setStream 0 o
  let live : StreamObject := { o with phase := .live }
  let c₆ := (c₅.setStream 0 live).showLive .eventSource
  let c₇ := c₆.setStream 0 { live with wire := [Pipeline.oneHit] }
  let c₈ : Connection := { c₇.setStream 0 live with hits := [Pipeline.oneHit] }
  let sent : HitServer Client := ⟨Pipeline.oneState, { subscribed.hitTx with
    sent := [Pipeline.oneHit] }⟩
  let received : HitServer Client := { sent with hitTx := { sent.hitTx with
    next := Function.update sent.hitTx.next (.page 0) (some 1) } }
  have hconnect : Step .aarch64 1 (.initial none) (.page (.requested 1 .connect)) ⟨server, c₁⟩ :=
    step_page (.connect rfl)
  have hlock : Step .aarch64 1 ⟨server, c₁⟩ (.server (.pipeline (.tryLocked 1))) ⟨locked, c₁⟩ :=
    ⟨.acts (HitServer.step_pipeline (.tryLock rfl)), .idle⟩
  have hanswer : Step .aarch64 1 ⟨locked, c₁⟩ (.server (.pipeline (.hits 1 (some 100) [])))
      ⟨server, c₂⟩ :=
    ⟨.acts (HitServer.step_pipeline (.hits rfl)), .acts (.answer rfl)⟩
  have hload : Step .aarch64 1 ⟨server, c₂⟩ (.page (.loaded 1)) ⟨server, c₃⟩ :=
    step_page (.replace (show c₂.loads 1 = .answered .connect (some []) from rfl))
  have hopen : Step .aarch64 1 ⟨server, c₃⟩ (.page (.opened 1 1)) ⟨server, c₄⟩ :=
    step_page (.openStream rfl)
  have hsubscribe : Step .aarch64 1 ⟨server, c₄⟩ (.server (.subscribed (.page 0)))
      ⟨subscribed, c₅⟩ :=
    ⟨.acts (HitServer.step_subscribed rfl),
      .acts (.subscribe (show c₄.streams[0]? = some new from rfl) rfl)⟩
  have hlive : Step .aarch64 1 ⟨subscribed, c₅⟩ (.page (.live 0)) ⟨subscribed, c₆⟩ :=
    step_page (.live (show c₅.streams[0]? = some o from rfl) rfl rfl)
  have hconnected : Run (Step .aarch64 1) (.initial none) _ ⟨subscribed, c₆⟩ :=
    .cons hconnect (.cons hlock (.cons hanswer (.cons hload (.cons hopen
      (.cons hsubscribe (.single hlive))))))
  have hserver : Run (HitServer.Step .aarch64 1) subscribed (Pipeline.oneRun.map .pipeline) sent :=
    HitServer.run_of_pipeline (s := subscribed) Pipeline.run_oneRun
  have hpipeline : Run (Step .aarch64 1) ⟨subscribed, c₆⟩ _ ⟨sent, c₆⟩ :=
    run_of_server hserver (by simp [Pipeline.oneRun])
  have hwritten : Step .aarch64 1 ⟨sent, c₆⟩ (.server (.received (.page 0) Pipeline.oneHit))
      ⟨received, c₇⟩ :=
    ⟨.acts ⟨.idle, .acts (.receive (show sent.hitTx.next (.page 0) = some 0 from rfl)
        (show 1 ≤ 0 + hitTxCapacity by decide) rfl)⟩,
      .acts (.write (show c₆.streams[0]? = some live from rfl))⟩
  have happended : Step .aarch64 1 ⟨received, c₇⟩ (.page (.appended 0 Pipeline.oneHit))
      ⟨received, c₈⟩ :=
    step_page (.append (show c₇.streams[0]? = some { live with wire := [Pipeline.oneHit] } from rfl)
      rfl rfl)
  have hrun := ((hconnected.append hpipeline).snoc hwritten).snoc happended
  have hguarded := hrun.mono fun s e t hstep ↦
    (⟨fun _ _ ↦ trivial, hstep⟩ : Guarded _ (Allowed fun _ _ ↦ True) s e t)
  exact ⟨_, _, hguarded, rfl, rfl, (refines_dashboard hguarded (by simp [Event.Steady,
    Connection.Action.Steady, Pipeline.oneRun])).1⟩

end Site

end Pwatch.Ui
