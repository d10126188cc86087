import Pwatch.Server.Provenance
import Pwatch.Server.Requests
import Pwatch.Ui.Site
import Pwatch.Watch.FilterMeaning

/-!
# The program as a whole

The server with its watches, the driver, and the page with its streams as one system.  The page
meets the server where `Pwatch.Ui.Site` has them meet.

A hit on the page has come a long way: from the driver to a watch, through the filter, the queue
and the worker, and over an answer or a stream.  What it shows is what the driver has returned to
a watch that somebody has asked for, and the filter in the body of that create is true of it
(`shown_is_evident`).
-/

namespace Pwatch.Server

open Watch

/-! ## What a hit shows -/

/-- Under the name of each register a hit shows the value the driver has returned for it. -/
theorem Carries.register {driverHit : Driver.Hit} {hit : Hit}
    (h : Carries .aarch64 (sampleOf driverHit) hit) (register : Watch.Register) :
    ∃ entry ∈ hit.regs, entry.name = register.name ∧
      entry.value = Hit.hexText (register.value driverHit.after) ∧
        ∀ other ∈ hit.regs, other.name = register.name → other = entry := by
  have hlen : (sampleOf driverHit).regs.length = Arch.aarch64.regsCount := by
    simp [sampleOf]
    decide
  obtain ⟨hidx, hval⟩ := List.getElem?_eq_some_iff.mp (register.getElem?_regs driverHit)
  have hcount : hit.regs.length = (sampleOf driverHit).regs.length := by
    simpa using congrArg List.length h.regs
  -- an entry by its position
  have hentry : ∀ i (hi : i < hit.regs.length), (hit.regs[i].name, hit.regs[i].value) =
      (Arch.aarch64.idToStr i, Hit.hexText ((sampleOf driverHit).regs.get ⟨i, hcount ▸ hi⟩)) := by
    intro i hi
    have hget := congrArg (·[i]?) h.regs
    simpa [hi, hcount ▸ hi] using hget
  have hpos : register.index < hit.regs.length := hcount ▸ hidx
  obtain ⟨hname, hvalue⟩ := Prod.mk.inj (hentry register.index hpos)
  refine ⟨hit.regs[register.index], List.getElem_mem hpos, ?_, ?_, ?_⟩
  · rw [hname, Register.idToStr_index]
  · rw [hvalue]
    exact congrArg Hit.hexText hval
  · intro other hother hsame
    obtain ⟨j, hj, rfl⟩ := List.getElem_of_mem hother
    have hname' : Arch.aarch64.idToStr j = Arch.aarch64.idToStr register.index := by
      rw [← (Prod.mk.inj (hentry j hj)).1, hsame, Register.idToStr_index]
    obtain rfl : j = register.index := Arch.aarch64.idToStr_injective
      (hlen ▸ hcount ▸ hj) register.index_lt (by rw [hname', Text.eqIgnoreAsciiCase_self])
    rfl

/-- What passes the filter of a body is what the text of the filter says. -/
theorem Configured.reads {request : CreateBreakpointRequest} {l : Launched}
    (h : Configured .aarch64 request l.config) {driverHit : Driver.Hit}
    (hpasses : l.passes driverHit = true) {text : Str} (htext : request.filter = some text) :
    ∃ tokens, Filter.Lexes text tokens ∧ (∃ f, Reads tokens f) ∧
      ∀ f, Reads tokens f → f.Holds driverHit.after := by
  obtain ⟨typeLen, value, map, parsed, -, hparsed, hconfig⟩ := h
  rw [parsedFilter, htext] at hparsed
  dsimp only at hparsed
  cases hfilter : Filter.parse .aarch64 text with
  | error failure =>
      rw [hfilter] at hparsed
      cases hparsed
  | ok filter =>
      rw [hfilter] at hparsed
      obtain rfl : some filter = parsed := Except.ok.inj hparsed
      obtain ⟨tokens, hlex, hderives⟩ := Filter.parse_eq_ok_iff.mp hfilter
      refine ⟨tokens, hlex, exists_reads hderives, fun f hf ↦ ?_⟩
      obtain ⟨groups, hgroups, hmeans⟩ := hf.derives
      have hsame := Filter.parse_eq_ok_iff.mpr ⟨tokens, hlex, hgroups⟩
      obtain rfl : filter = ⟨groups⟩ := Except.ok.inj (hfilter.symm.trans hsame)
      rw [Launched.passes, hconfig] at hpasses
      exact (hmeans driverHit).mp hpasses

end Pwatch.Server

namespace Pwatch.Ui

open Server Watch Pwatch.Filter

/-! ## What the page has from the server -/

/-- The hits of an answer that is on its way. -/
def Load.carried : Load → List Hit
  | .answered _ (some answer) => answer
  | _ => []

namespace Connection

variable {P : Hit → Prop} {c c' : Connection}

/-- Every hit the page has or will have without the server is of a kind. -/
structure Only (P : Hit → Prop) (c : Connection) : Prop where
  hits : ∀ hit ∈ c.hits, P hit
  answers : ∀ r, ∀ hit ∈ (c.loads r).carried, P hit
  wires : ∀ o ∈ c.streams, ∀ hit ∈ o.wire, P hit

/-- The hits the server gives to the page at an event. -/
def Event.brings : Event → List Hit
  | .answered _ _ answer => answer
  | .written _ hit => [hit]
  | .action _ | .subscribed _ => []

theorem Only.mono {Q : Hit → Prop} (h : Only P c) (hsub : ∀ hit, P hit → Q hit) : Only Q c where
  hits hit hmem := hsub hit (h.hits hit hmem)
  answers r hit hmem := hsub hit (h.answers r hit hmem)
  wires o ho hit hmem := hsub hit (h.wires o ho hit hmem)

/-- A load changes. -/
theorem Only.setLoad (h : Only P c) (r : Nat) {load : Load}
    (hload : ∀ hit ∈ load.carried, P hit) : Only P (c.setLoad r load) where
  hits := h.hits
  answers := (Function.forall_update_iff c.loads fun _ load ↦ ∀ hit ∈ load.carried, P hit).mpr
    ⟨hload, fun r' _ ↦ h.answers r'⟩
  wires := h.wires

/-- A load that carries nothing. -/
theorem Only.setLoad_nil (h : Only P c) (r : Nat) {load : Load} (hload : load.carried = []) :
    Only P (c.setLoad r load) :=
  h.setLoad r (by simp [hload])

/-- The streams change, and what is on their wires was there. -/
theorem Only.setStreams (h : Only P c) (hhits : c'.hits = c.hits) (hloads : c'.loads = c.loads)
    (hwires : ∀ o ∈ c'.streams, ∀ hit ∈ o.wire, P hit) : Only P c' where
  hits := hhits ▸ h.hits
  answers := hloads ▸ h.answers
  wires := hwires

theorem Only.setStream (h : Only P c) (n : Nat) {o : StreamObject} (ho : ∀ hit ∈ o.wire, P hit) :
    Only P (c.setStream n o) := by
  refine h.setStreams rfl rfl fun o' ho' ↦ ?_
  rcases List.mem_or_eq_of_mem_set ho' with hmem | rfl
  · exact h.wires o' hmem
  · exact ho

theorem wires_close {streams : List StreamObject} (h : ∀ o ∈ streams, ∀ hit ∈ o.wire, P hit)
    (held : Option Nat) : ∀ o ∈ close streams held, ∀ hit ∈ o.wire, P hit := by
  cases held with
  | none => exact h
  | some n =>
      intro o ho
      obtain ⟨i, hi⟩ := List.mem_iff_getElem?.mp ho
      rw [close, List.getElem?_modify] at hi
      obtain ⟨o', ho', rfl⟩ := Option.map_eq_some_iff.mp hi
      have hmem := List.mem_of_getElem? ho'
      by_cases hn : n = i
      · rw [if_pos hn]
        exact h o' hmem
      · rw [if_neg hn]
        exact h o' hmem

theorem Only.closeStream (h : Only P c) : Only P c.closeStream :=
  h.setStreams rfl rfl (wires_close (wires_close h.wires _) _)

/-- A new stream has brought nothing. -/
theorem Only.addStream (h : Only P c) (kind : StreamKind) : Only P (c.addStream kind) := by
  refine h.setStreams rfl rfl fun o ho ↦ ?_
  rcases List.mem_append.mp ho with hmem | hnew
  · exact h.wires o hmem
  · rw [List.mem_singleton.mp hnew]
    simp

theorem Only.openStream (h : Only P c) (timer : Nat) : Only P (c.openStream timer) :=
  (h.closeStream.addStream .eventSource).setStreams rfl rfl
    (h.closeStream.addStream .eventSource).wires

theorem Only.openFetchStream (h : Only P c) : Only P c.openFetchStream :=
  (h.addStream .fetch).setStreams rfl rfl (h.addStream .fetch).wires

theorem Only.showLive (h : Only P c) (kind : StreamKind) : Only P (c.showLive kind) := by
  cases kind <;> exact h.setStreams rfl rfl h.wires

/-- **The step lemma.** -/
theorem Step.only {e : Event} (hstep : Step c e c') (h : Only P c)
    (he : ∀ hit ∈ e.brings, P hit) : Only P c' := by
  cases hstep with
  | editInput | setHitLimit => exact h.setStreams rfl rfl h.wires
  | @connect r =>
      let base := jsTrim c.input
      have hbase : Only P { c with apiBase := if base = [] then defaultBase else base } :=
        h.setStreams rfl rfl h.wires
      exact (hbase.closeStream.setLoad_nil r rfl :
        Only P (Connection.setLoad _ r (.requested .connect c.hitLimit)))
  | load | refuse | fail => exact h.setLoad_nil _ rfl
  | answer => exact h.setLoad _ he
  | answerOther => exact h
  | @replace r origin answer hload =>
      have hdone : Only P (c.setLoad r (if origin = .connect then .loaded else .done)) :=
        h.setLoad_nil r (by split <;> rfl)
      have hall := h.answers r
      rw [hload] at hall
      exact ⟨hall, hdone.answers, hdone.wires⟩
  | @openStream r timer => exact (h.setLoad_nil r rfl).openStream timer
  | @openStreamThrows r => exact (h.setLoad_nil r rfl).closeStream
  | @openFetchStream timer source =>
      have hclosed : Only P ((c.clearTimeout timer).closeSource source) :=
        h.setStreams rfl rfl (wires_close h.wires (some source))
      exact hclosed.openFetchStream
  | timeOut => exact h.setStreams rfl rfl h.wires
  | @live n o ho =>
      have hset := h.setStream n (o := { o with phase := .live })
        (h.wires o (List.mem_of_getElem? ho))
      exact hset.showLive o.kind
  | @ready n o => exact h.showLive o.kind
  | @append n o hit rest ho _ hwire =>
      have hall := h.wires o (List.mem_of_getElem? ho)
      rw [hwire] at hall
      have hset := h.setStream n (o := { o with wire := rest })
        fun hit' hmem ↦ hall hit' (List.mem_cons_of_mem _ hmem)
      refine ⟨fun hit' hmem ↦ ?_, hset.answers, hset.wires⟩
      rcases List.mem_append.mp ((appendHit_suffix ..).subset hmem) with hold | hnew
      · exact h.hits hit' hold
      · rw [List.mem_singleton.mp hnew]
        exact hall hit List.mem_cons_self
  | @lose n o ho =>
      have hset := h.setStream n (o := { o with phase := .connecting, wire := [] }) (by simp)
      exact hset.setStreams rfl rfl hset.wires
  | @giveUp n o ho =>
      have hset := h.setStream n (o := { o with closed := true })
        (h.wires o (List.mem_of_getElem? ho))
      exact hset.setStreams rfl rfl hset.wires
  | @finish n o ho | @subscribe n o ho => exact h.setStream n (h.wires o (List.mem_of_getElem? ho))
  | clear => exact ⟨by simp, h.answers, h.wires⟩
  | @write n o hit ho =>
      refine h.setStream n fun hit' hmem ↦ ?_
      rcases List.mem_append.mp hmem with hold | hnew
      · exact h.wires o (List.mem_of_getElem? ho) hit' hold
      · exact he hit' hnew

end Connection

/-! ## The whole -/

/-- The server with the threads and the driver, and a page with its streams. -/
structure Whole where
  system : System Client
  page : Connection

namespace Whole

def initial (stored : Option Str) : Whole where
  system := .initial
  page := .initial stored

inductive Event
  | system (e : System.Event Client)
  | page (a : Connection.Action)

namespace Event

/-- The action of the server, a thread or the driver. -/
@[simp] def ofSystem : Event → Option (System.Event Client)
  | .system e => some e
  | .page _ => none

/-- What the page, or the part of the server that it meets, does. -/
@[simp] def toSite : Event → Option Site.Event
  | .system e => e.ofHitServer.map .server
  | .page a => some (.page a)

/-- No source connects again, and every source can be made. -/
def Steady (e : Event) : Prop := ∀ d ∈ e.toSite, d.Steady

/-- The stream of the page does not lag. -/
def NoLag (e : Event) : Prop := ∀ d ∈ e.toSite.bind Site.Event.toDashboard, Dashboard.NoLag d

end Event

/-- The part of the server that the page meets, and the page. -/
def toSite (s : Whole) : Site := ⟨s.system.hitServer, s.page⟩

/-- A list and the stream behind it fit together. -/
def Timely (s : Whole) (e : Event) : Prop :=
  ∀ d ∈ e.toSite, Site.Allowed Dashboard.Timely s.toSite d

variable {arch : Arch} {limit : Nat} {stored : Option Str} {es : List Event} {e : Event}
  {s t : Whole}

variable (arch limit) in
/-- One action of the system, of the page, or of both. -/
structure Step (s : Whole) (e : Event) (t : Whole) : Prop where
  system : Takes (System.Step arch limit) s.system e.ofSystem t.system
  page : Takes Connection.Step s.page (e.toSite.bind Site.Event.ofPage) t.page

theorem Step.site (h : Step arch limit s e t) :
    Takes (Site.Step arch limit) s.toSite e.toSite t.toSite := by
  have hpage := h.page
  cases e with
  | page a =>
      have hsystem : t.system = s.system := h.system.eq_of_none
      rw [toSite, toSite, hsystem]
      exact .acts ⟨.idle, hpage⟩
  | system e =>
      have hserver := h.system.of_some.hitServer_takes
      rw [Event.toSite] at hpage ⊢
      cases he : e.ofHitServer with
      | none =>
          rw [he] at hpage hserver
          rw [toSite, toSite, hserver.eq_of_none, hpage.eq_of_none]
          exact .idle
      | some e =>
          rw [he] at hpage hserver
          exact .acts ⟨hserver, hpage⟩

/-- What the server, its threads and the driver did. -/
def systemEvents (es : List Event) : List (System.Event Client) := es.filterMap Event.ofSystem

/-- The hits that were taken past the buffer. -/
def pushedHits (es : List Event) : List Hit :=
  Pipeline.pushedHits (System.pipelineEvents (systemEvents es))

theorem run_system (hrun : Run (Step arch limit) s es t) :
    Run (System.Step arch limit) s.system (systemEvents es) t.system :=
  hrun.part fun _ _ _ h ↦ h.system

theorem run_site (hrun : Run (Guarded (Step arch limit) Timely) s es t) :
    Run (Guarded (Site.Step arch limit) (Site.Allowed Dashboard.Timely)) s.toSite
      (es.filterMap Event.toSite) t.toSite :=
  hrun.part fun _ _ _ h ↦ h.2.site.guarded h.1

/-! ## Where a hit on the page comes from -/

theorem pushedHits_prefix (es : List Event) (e : Event) :
    pushedHits es <+: pushedHits (es ++ [e]) := by
  rw [pushedHits, pushedHits, systemEvents, systemEvents, List.filterMap_append,
    System.pipelineEvents, System.pipelineEvents, System.hitServerEvents_append]
  exact HitServer.pushedHits_prefix ..

/-- What the server gives to the page was pushed. -/
theorem Step.brings_pushed (hrun : Run (Step arch limit) (.initial stored) es s)
    (hstep : Step arch limit s e t) {pe : Connection.Event}
    (hpe : e.toSite.bind Site.Event.ofPage = some pe) :
    ∀ hit ∈ pe.brings, hit ∈ pushedHits (es ++ [e]) := by
  obtain ⟨hanswers, hreceived⟩ := System.seen_was_pushed (run_system (hrun.snoc hstep))
  intro hit hhit
  cases e with
  | page a =>
      obtain rfl := Option.some.inj hpe
      cases hhit
  | system e =>
      have hsystem := hstep.system.of_some
      generalize t.system = system at hsystem
      cases hsystem with
      | registry | create | poll | remove | removeFailed | accept | reject | drop => cases hpe
      | @hitServer e =>
          change (Site.Event.server e).ofPage = some pe at hpe
          have hmem : .hitServer e ∈ systemEvents (es ++ [.system (.hitServer e)]) := by
            simp [systemEvents]
          unfold Site.Event.ofPage at hpe
          split at hpe
          · next heq => cases heq
          · next heq =>
              cases heq
              obtain rfl := Option.some.inj hpe
              exact (hanswers _ _ _ hmem).subset hhit
          · obtain rfl := Option.some.inj hpe
            cases hhit
          · next heq =>
              cases heq
              obtain rfl := Option.some.inj hpe
              obtain rfl := List.mem_singleton.mp hhit
              exact hreceived _ _ hmem
          · cases hpe

/-- The page has hits that were pushed. -/
theorem only_pushed (hrun : Run (Step arch limit) (.initial stored) es s) :
    s.page.Only (· ∈ pushedHits es) := by
  induction hrun with
  | nil => exact ⟨by simp [initial, Connection.initial], by simp [initial, Connection.initial,
      Load.carried], by simp [initial, Connection.initial]⟩
  | @snoc es s t e hrun hstep ih =>
      have hprefix := pushedHits_prefix es e
      have hkept := ih.mono fun hit hmem ↦ hprefix.subset hmem
      have hbrings : ∀ pe, e.toSite.bind Site.Event.ofPage = some pe →
          ∀ hit ∈ pe.brings, hit ∈ pushedHits (es ++ [e]) := fun _ ↦ hstep.brings_pushed hrun
      have hpage := hstep.page
      generalize e.toSite.bind Site.Event.ofPage = a at hpage hbrings
      generalize t.page = page at hpage ⊢
      cases hpage with
      | idle => exact hkept
      | acts hpage => exact hpage.only hkept (hbrings _ rfl)

/-- Where a hit on the page comes from: a body that was posted, the watch it has led to, and a
hit that the driver has returned to this watch. -/
structure Evidence (es : List Event) (s : Whole) (hit : Hit) (r : Nat)
    (request : CreateBreakpointRequest) (l : Launched) (driverHit : Driver.Hit) : Prop where
  admitted : .system (.registry (.admitted r request)) ∈ es
  launched : (s.system.registry.creates r).launched = some l ∧ l.id = hit.breakpointId
  configured : Configured .aarch64 request l.config
  /-- The poll that has returned it was for a breakpoint that was created for this body. -/
  polled : ∃ tid id hits calls, .system (.created r (l.config.createCall tid) id) ∈ es ∧
    .system (.polled r id hits calls) ∈ es ∧ driverHit ∈ hits
  threads : hit.pid = driverHit.pid.toUInt32 ∧ hit.tid = driverHit.tid.toUInt32
  registers : ∀ register : Watch.Register, ∃ entry ∈ hit.regs, entry.name = register.name ∧
    entry.value = Hit.hexText (register.value driverHit.after) ∧
      ∀ other ∈ hit.regs, other.name = register.name → other = entry
  /-- The text of its filter is true of it, however it is read. -/
  filter : ∀ text, request.filter = some text → ∃ tokens, Lexes text tokens ∧
    (∃ f, Reads tokens f) ∧ ∀ f, Reads tokens f → f.Holds driverHit.after

theorem mem_of_mem_systemEvents {e : System.Event Client} (h : e ∈ systemEvents es) :
    .system e ∈ es := by
  obtain ⟨e', he', hof⟩ := List.mem_filterMap.mp h
  cases e' with
  | system e' =>
      obtain rfl := Option.some.inj hof
      exact he'
  | page a => cases hof

/-- The body of a create that was launched. -/
theorem exists_request (hrun : Run (Step arch limit) (.initial stored) es s) {r : Nat}
    {l : Launched} (hl : (s.system.registry.creates r).launched = some l) :
    ∃ request, .system (.registry (.admitted r request)) ∈ es ∧
      Configured arch request l.config := by
  rcases requested (System.run_registry (run_system hrun)) r with ⟨-, hnone⟩ |
    ⟨request, hmem, hserves⟩
  · cases hl.symm.trans hnone
  · obtain ⟨e, he, hof⟩ := List.mem_filterMap.mp hmem
    obtain rfl : e = .registry (.admitted r request) := by
      cases e <;> simp at hof
      rw [hof]
    exact ⟨request, mem_of_mem_systemEvents he, hserves.launched l hl⟩

/-- A hit that the driver has returned came with a poll of a breakpoint for this body. -/
theorem exists_poll (hrun : Run (Step arch limit) (.initial stored) es s) {r : Nat}
    {l : Launched} (hl : (s.system.registry.creates r).launched = some l)
    {driverHit : Driver.Hit} (h : driverHit ∈ System.polledHits r (systemEvents es)) :
    ∃ tid id hits calls, .system (.created r (l.config.createCall tid) id) ∈ es ∧
      .system (.polled r id hits calls) ∈ es ∧ driverHit ∈ hits := by
  obtain ⟨e, he, hmem⟩ := List.mem_flatMap.mp h
  obtain ⟨id, hits, calls, rfl, hhit⟩ :
      ∃ id hits calls, e = .polled r id hits calls ∧ driverHit ∈ hits := by
    unfold System.Event.hitsOf at hmem
    split at hmem
    · split at hmem
      · next hr => exact ⟨_, _, _, by rw [hr], hmem⟩
      · cases hmem
    · cases hmem
  obtain ⟨tid, hcreated⟩ := System.exists_created_of_polled (run_system hrun) hl he
  exact ⟨tid, id, hits, calls, mem_of_mem_systemEvents hcreated, mem_of_mem_systemEvents he, hhit⟩

/-- What was pushed the driver has returned. -/
theorem exists_evidence {limit : Nat}
    (hrun : Run (Step .aarch64 limit) (.initial stored) es s)
    (hbound : (ledger (System.registryEvents (systemEvents es))).numbered.length < 2 ^ 64)
    {hit : Hit} (hhit : hit ∈ pushedHits es) :
    ∃ r request l driverHit, Evidence es s hit r request l driverHit := by
  have hsystem := run_system hrun
  obtain ⟨r, l, hl, hid⟩ := System.exists_launched_of_pushed hsystem hhit
  obtain ⟨hits, hsub, hcarries⟩ := (System.provenance hsystem hbound hl).origin
  have hmem : hit ∈ (pushedHits es).filter (·.breakpointId = l.id) := by
    rw [List.mem_filter, decide_eq_true_eq]
    exact ⟨hhit, hid.symm⟩
  obtain ⟨before, after, hsplit⟩ := List.append_of_mem hmem
  have hpart : [hit] <:+: (pushedHits es).filter (·.breakpointId = l.id) :=
    ⟨before, after, by rw [hsplit, List.append_assoc, List.singleton_append]⟩
  obtain ⟨hits', hsub', hone⟩ := System.exists_sublist_of_infix hcarries hpart
  obtain ⟨driverHit, rest, hcarry, -, rfl⟩ := List.forall₂_cons_right_iff.mp hone
  have hreturned := (hsub'.trans hsub).subset List.mem_cons_self
  rw [List.mem_filter] at hreturned
  obtain ⟨request, hadmitted, hconfigured⟩ := exists_request hrun hl
  exact ⟨r, request, l, driverHit, {
    admitted := hadmitted
    launched := ⟨hl, hid⟩
    configured := hconfigured
    polled := exists_poll hrun hl hreturned.1
    threads := ⟨hcarry.pid, hcarry.tid⟩
    registers := hcarry.register
    filter := fun _ htext ↦ hconfigured.reads hreturned.2 htext }⟩

/-- The server of the dashboard is the server of the whole. -/
theorem serverEvents_eq (es : List Event) :
    Dashboard.serverEvents ((es.filterMap Event.toSite).filterMap Site.Event.toDashboard) =
      System.hitServerEvents (systemEvents es) := by
  rw [Dashboard.serverEvents, System.hitServerEvents, systemEvents, List.filterMap_filterMap,
    List.filterMap_filterMap, List.filterMap_filterMap]
  refine List.filterMap_congr fun e _ ↦ ?_
  cases e with
  | system e =>
      rw [Event.toSite, Event.ofSystem, Option.bind_some]
      cases e.ofHitServer <;> rfl
  | page a =>
      change (a.toPage.map Dashboard.Event.page).bind Dashboard.Event.ofServer = none
      cases a.toPage <;> rfl

/-- A list that is loaded in time is a piece of what was pushed. -/
theorem hits_piece (hrun : Run (Guarded (Step arch limit) Timely) (.initial stored) es s)
    (hsteady : ∀ e ∈ es, e.Steady) (hlag : ∀ e ∈ es, e.NoLag) : s.page.hits <:+: pushedHits es := by
  have hsite := run_site hrun
  have hdashboard := Site.run_toDashboard hsite fun d hd ↦ by
    obtain ⟨e, he, hof⟩ := List.mem_filterMap.mp hd
    exact hsteady e he d hof
  have hfits := Dashboard.fits hdashboard fun d hd ↦ by
    rw [List.filterMap_filterMap] at hd
    obtain ⟨e, he, hof⟩ := List.mem_filterMap.mp hd
    exact hlag e he d hof
  have hpiece := hfits.hits_piece
  rw [Dashboard.pushedHits, serverEvents_eq] at hpiece
  exact hpiece

/-- The page has nothing to do with the event. -/
def Apart (e : HitServer.Event Client) : Prop :=
  (Site.Event.server e).ofPage = none ∧ (∀ d, Dashboard.Timely d (.server e)) ∧
    Dashboard.NoLag (.server e)

/-- A run of the system without the page is one of the whole. -/
theorem run_of_system {ss : List (System.Event Client)} {system : System Client}
    (hrun : Run (System.Step arch limit) s.system ss system)
    (hapart : ∀ e ∈ System.hitServerEvents ss, Apart e) :
    Run (Guarded (Step arch limit) Timely) s (ss.map .system) { s with system } ∧
      ∀ e ∈ ss.map Event.system, e.Steady ∧ e.NoLag := by
  have hone : ∀ e ∈ ss, ∀ d ∈ e.ofHitServer, Apart d := fun e he d hd ↦
    hapart d (List.mem_filterMap.mpr ⟨e, he, hd⟩)
  constructor
  · clear hapart
    induction hrun with
    | nil => exact .nil
    | @snoc ss u u' e _ hstep ih =>
        rw [List.map_append, List.map_singleton]
        have hbefore := ih fun e he ↦ hone e (List.mem_append_left _ he)
        have hlast := hone e (by simp)
        refine hbefore.snoc ⟨fun d hd ↦ ?_, .acts hstep, ?_⟩
        · obtain ⟨e', he', rfl⟩ := Option.map_eq_some_iff.mp hd
          rintro _ ⟨⟩
          exact (hlast e' he').2.1 _
        · rw [Event.toSite, Option.bind_map]
          have hnone : e.ofHitServer.bind (Site.Event.ofPage ∘ Site.Event.server) = none :=
            Option.bind_eq_none_iff.mpr fun e' he' ↦ (hlast e' he').1
          rw [hnone]
          exact .idle
  · rintro _ hmem
    obtain ⟨e, he, rfl⟩ := List.mem_map.mp hmem
    constructor
    · rintro _ hd
      obtain ⟨e', -, rfl⟩ := Option.map_eq_some_iff.mp hd
      trivial
    · intro d hd
      rw [Event.toSite, Option.bind_map] at hd
      obtain ⟨e', he', hd⟩ := Option.bind_eq_some_iff.mp hd
      cases hd
      exact (hone e he e' he').2.2

end Whole

end Pwatch.Ui
