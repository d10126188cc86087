import Pwatch.Server.Stream
import Pwatch.Ui.Page

/-!
# The hit list and the server

The page and the server as one system.  They meet where the server answers a `GET /hits`,
subscribes a stream of the page or writes a hit to it; everything else they do at any time.

A list that is put in place while the stream is behind or ahead of it, or that is older than the
stream, gets a hit twice or loses one.  `Timely` is the condition under which this does not happen.
-/

namespace Pwatch.Ui

open Server

/-- Who subscribes to the hits. -/
inductive Client
  | /-- The stream of this page with the given number. -/
    page (n : Nat)
  | other (n : Nat)
deriving DecidableEq

structure Dashboard where
  server : HitServer Client
  page : Page

namespace Dashboard

def initial : Dashboard where
  server := .initial
  page := .initial

inductive Event
  | server (e : HitServer.Event Client)
  | page (a : Page.Action)

/-- The action of the server. -/
@[simp] def Event.ofServer : Event → Option (HitServer.Event Client)
  | .server e => some e
  | .page _ => none

/-- The action of the page, or what the server does to it. -/
@[simp] def Event.ofPage : Event → Option Page.Event
  | .page a => some (.action a)
  | .server (.pipeline (.hits r limit answer)) => some (.answered r limit answer)
  | .server (.subscribed (.page n)) => some (.subscribed n)
  | .server (.received (.page n) hit) => some (.written n hit)
  | .server _ => none

variable (arch : Arch) (limit : Nat)

/-- One action of the server, of the page, or of both. -/
structure Step (s : Dashboard) (e : Event) (t : Dashboard) : Prop where
  server : Takes (HitServer.Step arch limit) s.server e.ofServer t.server
  page : Takes Page.Step s.page e.ofPage t.page

/-- The hits that were sent and that the stream will not bring any more, when the page has a
stream that the server has subscribed. -/
def behind (s : Dashboard) : Option (List Hit) :=
  s.page.stream.bind fun stream ↦
    (s.server.hitTx.next (.page stream.number)).map fun n ↦
      s.server.hitTx.sent.take (n - stream.wire.length)

/-- The stream of the page does not lag. -/
def NoLag : Event → Prop
  | .server (.lagged (.page _)) => False
  | _ => True

/-- A list and the stream behind it fit together: when the server subscribes the stream, the list
ends with the last hit that was sent; when an answer is put in place, it ends with the hit in
front of the next one of the stream.  An empty list fits always. -/
def Timely (s : Dashboard) : Event → Prop
  | .server (.subscribed (.page n)) =>
      s.page.stream.map Stream.number = some n → s.page.hits <:+ s.server.hitTx.sent
  | .page (.loaded r) => ∀ origin answer, s.page.loads r = .answered origin (some answer) →
      ∀ hits ∈ s.behind, answer <:+ hits
  | _ => True

/-! ## The invariant -/

/-- What the page has of the hits that were pushed.  `abreast` is the part that counts: in
front of the next hit of the stream stand the hits on the wire, in front of these the list. -/
structure Fits (pushed : List Hit) (hitTx : Broadcast.Channel Client Hit) (page : Page) :
    Prop where
  sent_first : hitTx.sent <+: pushed
  answers : ∀ r origin answer, page.loads r = .answered origin (some answer) → answer <:+: pushed
  hits_piece : page.hits <:+: pushed
  number_lt : ∀ stream, page.stream = some stream → stream.number < page.streams
  fresh : ∀ n, page.streams ≤ n → hitTx.next (.page n) = none
  connecting : ∀ stream, page.stream = some stream → hitTx.next (.page stream.number) = none →
    stream.wire = []
  abreast : ∀ stream n, page.stream = some stream → hitTx.next (.page stream.number) = some n →
    n ≤ hitTx.sent.length ∧ ∃ hits, hitTx.sent.take n = hits ++ stream.wire ∧ page.hits <:+ hits

variable {pushed pushed' : List Hit} {c c' : Broadcast.Channel Client Hit} {p p' : Page}

theorem fits_initial : Fits [] (.empty : Broadcast.Channel Client Hit) .initial where
  sent_first := List.prefix_rfl
  answers := by simp [Page.initial]
  hits_piece := List.infix_rfl
  number_lt := by simp [Page.initial]
  fresh _ _ := rfl
  connecting := by simp [Page.initial]
  abreast := by simp [Page.initial]

/-- The receivers of this page that the page may have to do with. -/
def Concerns (p : Page) (n : Nat) : Prop :=
  p.streams ≤ n ∨ ∃ stream, p.stream = some stream ∧ stream.number = n

/-- The server goes on without the page. -/
theorem Fits.server (h : Fits pushed c p) {e : Option (Broadcast.Event Client Hit)}
    (hstep : Takes (Broadcast.Step hitTxCapacity) c e c') (hpushed : pushed <+: pushed')
    (hfirst : c'.sent <+: pushed')
    (hother : ∀ e', e = some e' → ∀ n, Concerns p n → e'.receiver ≠ some (.page n)) :
    Fits pushed' c' p := by
  have hsent : c.sent <+: c'.sent := by
    cases hstep with
    | idle => exact List.prefix_rfl
    | acts hstep => exact ⟨_, hstep.sent_eq.symm⟩
  have hnext : ∀ n, Concerns p n → c'.next (.page n) = c.next (.page n) := by
    cases hstep with
    | idle => exact fun _ _ ↦ rfl
    | acts hstep => exact fun n hn ↦ hstep.next_eq (hother _ rfl n hn)
  exact {
    sent_first := hfirst
    answers := fun r origin answer hr ↦ (h.answers r origin answer hr).trans hpushed.isInfix
    hits_piece := h.hits_piece.trans hpushed.isInfix
    number_lt := h.number_lt
    fresh := fun n hn ↦ (hnext n (.inl hn)).trans (h.fresh n hn)
    connecting := fun stream hs hnone ↦
      h.connecting stream hs ((hnext _ (.inr ⟨stream, hs, rfl⟩)).symm.trans hnone)
    abreast := fun stream n hs hn ↦ by
      obtain ⟨hle, hits, htake, hhits⟩ :=
        h.abreast stream n hs ((hnext _ (.inr ⟨stream, hs, rfl⟩)).symm.trans hn)
      obtain ⟨later, hlater⟩ := hsent
      refine ⟨?_, hits, ?_, hhits⟩
      · rw [← hlater, List.length_append]
        exact Nat.le_add_right_of_le hle
      · rw [← hlater, List.take_append_of_le_length hle, htake] }

/-- A load goes on. -/
theorem Fits.setLoad (h : Fits pushed c p) (r : Nat) {load : Load}
    (hload : ∀ origin answer, load = .answered origin (some answer) → answer <:+: pushed) :
    Fits pushed c (p.setLoad r load) :=
  { h with
    answers := fun r' origin answer hr' ↦ by
      by_cases hr : r' = r
      · subst hr
        exact hload origin answer ((Function.update_self ..).symm.trans hr')
      · exact h.answers r' origin answer ((Function.update_of_ne hr ..).symm.trans hr') }

/-- The page listens to no stream any more. -/
theorem Fits.close (h : Fits pushed c p) : Fits pushed c { p with stream := none } :=
  { h with
    number_lt := nofun
    connecting := nofun
    abreast := nofun }

/-- The page opens a stream. -/
theorem Fits.openStream (h : Fits pushed c p) (kind : StreamKind) :
    Fits pushed c (p.openStream kind) where
  sent_first := h.sent_first
  answers := h.answers
  hits_piece := h.hits_piece
  number_lt := by
    rintro _ ⟨⟩
    exact Nat.lt_succ_self _
  fresh n hn := h.fresh n (Nat.le_of_succ_le hn)
  connecting := by
    rintro _ ⟨⟩ -
    rfl
  abreast := by
    rintro _ n ⟨⟩ hn
    rw [h.fresh _ (Nat.le_refl _)] at hn
    cases hn

/-- The stream of the page gets into another phase. -/
theorem Fits.setPhase (h : Fits pushed c p) {stream : Stream} (hs : p.stream = some stream)
    (phase : StreamPhase) :
    Fits pushed c { p with stream := some { stream with phase } } where
  sent_first := h.sent_first
  answers := h.answers
  hits_piece := h.hits_piece
  number_lt := by
    rintro _ ⟨⟩
    exact h.number_lt stream hs
  fresh := h.fresh
  connecting := by
    rintro _ ⟨⟩
    exact h.connecting stream hs
  abreast := by
    rintro _ n ⟨⟩
    exact h.abreast stream n hs

/-- The hits behind the stream of the page. -/
theorem Fits.behind {s : Dashboard} (h : Fits pushed s.server.hitTx s.page) {stream : Stream}
    {n : Nat} (hs : s.page.stream = some stream)
    (hn : s.server.hitTx.next (.page stream.number) = some n) :
    ∃ hits, s.behind = some hits ∧ s.server.hitTx.sent.take n = hits ++ stream.wire := by
  obtain ⟨hle, hits, htake, -⟩ := h.abreast stream n hs hn
  refine ⟨hits, ?_, htake⟩
  have hlen : n = hits.length + stream.wire.length := by
    rw [← List.length_append, ← htake, List.length_take, Nat.min_eq_left hle]
  have hhits : s.server.hitTx.sent.take (n - stream.wire.length) = hits := by
    rw [hlen, Nat.add_sub_cancel,
      ← Nat.min_eq_left (Nat.le_add_right hits.length stream.wire.length),
      ← hlen, ← List.take_take, htake, List.take_left]
  rw [Dashboard.behind, hs, Option.bind_some, hn, Option.map_some, hhits]

/-- An answer is put in place. -/
theorem Fits.replace {s : Dashboard} (h : Fits pushed s.server.hitTx s.page) {r : Nat}
    {origin : Origin} {answer : List Hit} (hr : s.page.loads r = .answered origin (some answer))
    (htimely : s.Timely (.page (.loaded r))) (load : Load) (hload : ∀ o a, load ≠ .answered o a) :
    Fits pushed s.server.hitTx { s.page.setLoad r load with hits := answer } :=
  { h.setLoad r fun o a hl ↦ absurd hl (hload o (some a)) with
    hits_piece := h.answers r origin answer hr
    abreast := fun stream n hs hn ↦ by
      obtain ⟨hle, -⟩ := h.abreast stream n hs hn
      obtain ⟨hits, hbehind, htake⟩ := h.behind hs hn
      exact ⟨hle, hits, htake, htimely origin answer hr hits hbehind⟩ }

/-- The next hit of the stream is handled. -/
theorem Fits.append (h : Fits pushed c p) {stream : Stream} {hit : Hit} {rest : List Hit}
    (hs : p.stream = some stream) (hwire : stream.wire = hit :: rest) :
    Fits pushed c { p with
      hits := appendHit p.hitLimit p.hits hit
      stream := some { stream with wire := rest } } := by
  -- the server has subscribed the stream
  obtain ⟨n, hn⟩ : ∃ n, c.next (.page stream.number) = some n := by
    cases hn : c.next (.page stream.number) with
    | some n => exact ⟨n, rfl⟩
    | none =>
        rw [h.connecting stream hs hn] at hwire
        cases hwire
  obtain ⟨hle, hits, htake, hhits⟩ := h.abreast stream n hs hn
  rw [hwire, List.append_cons] at htake
  have hsuffix : appendHit p.hitLimit p.hits hit <:+ hits ++ [hit] :=
    (appendHit_suffix ..).trans (List.suffix_append_self_iff.mpr hhits)
  have hfirst : hits ++ [hit] <+: pushed := by
    have hsent : hits ++ [hit] <+: c.sent.take n := ⟨rest, htake.symm⟩
    exact (hsent.trans (List.take_prefix n c.sent)).trans h.sent_first
  exact {
    sent_first := h.sent_first
    answers := h.answers
    hits_piece := List.infix_iff_suffix_prefix.mpr ⟨_, hsuffix, hfirst⟩
    number_lt := by
      rintro _ ⟨⟩
      exact h.number_lt stream hs
    fresh := h.fresh
    connecting := by
      rintro _ ⟨⟩ hnone
      rw [hn] at hnone
      cases hnone
    abreast := by
      rintro _ m ⟨⟩ hm
      obtain rfl := Option.some.inj (hn.symm.trans hm)
      exact ⟨hle, _, htake, hsuffix⟩ }

/-- What happens to the stream of the page happens to none that is still to be opened. -/
theorem Fits.fresh_of_step (h : Fits pushed c p) {stream : Stream} (hs : p.stream = some stream)
    {e : Broadcast.Event Client Hit} (hstep : Broadcast.Step hitTxCapacity c e c')
    (he : e.receiver = some (.page stream.number)) {n : Nat} (hn : p.streams ≤ n) :
    c'.next (.page n) = none := by
  rw [hstep.next_eq, h.fresh n hn]
  rw [he]
  rintro ⟨⟩
  exact Nat.not_lt.mpr hn (h.number_lt stream hs)

/-- The server subscribes the stream of the page. -/
theorem Fits.subscribe (h : Fits pushed c p) {stream : Stream} (hs : p.stream = some stream)
    (hstep : Broadcast.Step hitTxCapacity c (.subscribed (.page stream.number)) c')
    (hhits : p.hits <:+ c.sent) :
    Fits pushed c' { p with stream := some { stream with phase := .subscribed } } := by
  have hsent : c'.sent = c.sent := hstep.sent_eq.trans (List.append_nil _)
  have hwire : stream.wire = [] := by
    cases hstep with
    | subscribe hnone => exact h.connecting stream hs hnone
  exact {
    sent_first := hsent ▸ h.sent_first
    answers := h.answers
    hits_piece := h.hits_piece
    number_lt := by
      rintro _ ⟨⟩
      exact h.number_lt stream hs
    fresh := fun _ ↦ h.fresh_of_step hs hstep rfl
    connecting := by
      rintro _ ⟨⟩ -
      exact hwire
    abreast := by
      rintro _ n ⟨⟩ hn
      obtain rfl : c'.sent.length = n := Option.some.inj (hstep.next_subscribed.symm.trans hn)
      refine ⟨Nat.le_refl _, c'.sent, ?_, hsent ▸ hhits⟩
      rw [List.take_length, hwire, List.append_nil] }

/-- The server writes a hit to the stream of the page. -/
theorem Fits.write (h : Fits pushed c p) {stream : Stream} {hit : Hit}
    (hs : p.stream = some stream)
    (hstep : Broadcast.Step hitTxCapacity c (.received (.page stream.number) hit) c') :
    Fits pushed c' { p with stream := some { stream with wire := stream.wire ++ [hit] } } := by
  have hsent : c'.sent = c.sent := hstep.sent_eq.trans (List.append_nil _)
  obtain ⟨n, hn, hget, hnext⟩ := hstep.next_received
  obtain ⟨hle, hits, htake, hhits⟩ := h.abreast stream n hs hn
  obtain ⟨hlt, -⟩ := List.getElem?_eq_some_iff.mp hget
  exact {
    sent_first := hsent ▸ h.sent_first
    answers := h.answers
    hits_piece := h.hits_piece
    number_lt := by
      rintro _ ⟨⟩
      exact h.number_lt stream hs
    fresh := fun _ ↦ h.fresh_of_step hs hstep rfl
    connecting := by
      rintro _ ⟨⟩ hnone
      cases hnext.symm.trans hnone
    abreast := by
      rintro _ m ⟨⟩ hm
      obtain rfl : n + 1 = m := Option.some.inj (hnext.symm.trans hm)
      rw [hsent]
      refine ⟨hlt, hits, ?_, hhits⟩
      rw [List.take_add_one, htake, hget, Option.toList_some, List.append_assoc] }

/-! ## Steps and runs -/

variable {arch : Arch} {limit : Nat} {es : List Event} {e : Event} {s t : Dashboard}

/-- The actions of the server. -/
def serverEvents (es : List Event) : List (HitServer.Event Client) :=
  es.filterMap Event.ofServer

/-- The hits that `push_hit` has taken past the buffer. -/
def pushedHits (es : List Event) : List Hit :=
  Pipeline.pushedHits (HitServer.pipelineEvents (serverEvents es))

theorem run_server (hrun : Run (Step arch limit) s es t) :
    Run (HitServer.Step arch limit) s.server (serverEvents es) t.server :=
  hrun.part fun _ _ _ h ↦ h.server

theorem pushedHits_prefix (es : List Event) (e : Event) :
    pushedHits es <+: pushedHits (es ++ [e]) := by
  rw [pushedHits, pushedHits, serverEvents, serverEvents, filterMap_snoc]
  exact HitServer.pushedHits_prefix _ _

/-- What was sent was pushed before. -/
theorem sent_first_of_run (hrun : Run (Step arch limit) .initial es s) :
    s.server.hitTx.sent <+: pushedHits es := by
  rw [pushedHits, HitServer.pushedHits_eq (run_server hrun)]
  exact List.prefix_append _ _

/-- What the page does on its own. -/
theorem Fits.action (h : Fits pushed s.server.hitTx s.page) {a : Page.Action}
    (htimely : s.Timely (.page a)) (hstep : Page.Step s.page (.action a) p') :
    Fits pushed s.server.hitTx p' := by
  cases hstep with
  | setHitLimit => exact { h with }
  | connect hr => exact (h.setLoad _ (by simp)).close
  | load hr _ | fail hr | refuse hr => exact h.setLoad _ (by simp)
  | @replace r origin answer hr =>
      refine h.replace hr htimely _ fun _ _ ↦ ?_
      split <;> simp
  | openStream hr => exact (h.setLoad _ (by simp)).openStream _
  | openFetchStream hs _ _ => exact h.openStream _
  | live hs _ => exact h.setPhase hs _
  | append hs _ hwire => exact h.append hs hwire
  | clear =>
      exact { h with
        hits_piece := List.nil_infix
        abreast := fun stream n hs hn ↦ by
          obtain ⟨hle, hits, htake, -⟩ := h.abreast stream n hs hn
          exact ⟨hle, hits, htake, List.nil_suffix⟩ }

/-- A stream that the page has closed is no concern of it. -/
theorem not_concerns {n : Nat} (hlt : n < p.streams)
    (hclosed : ∀ stream, p.stream = some stream → stream.number ≠ n) : ¬ Concerns p n := by
  rintro (hle | ⟨stream, hs, rfl⟩)
  · exact Nat.not_lt.mpr hle hlt
  · exact hclosed stream hs rfl

/-- What the server does. -/
theorem Fits.serverStep (hrun : Run (Step arch limit) .initial es s)
    (h : Fits (pushedHits es) s.server.hitTx s.page) {e : HitServer.Event Client}
    (hlag : NoLag (.server e)) (htimely : s.Timely (.server e))
    (hstep : Step arch limit s (.server e) t) :
    Fits (pushedHits (es ++ [.server e])) t.server.hitTx t.page := by
  have hpushed := pushedHits_prefix es (.server e)
  have hfirst := sent_first_of_run (hrun.snoc hstep)
  have hchannel := hstep.server.of_some.hitTx
  have hpage := hstep.page
  -- the page as it was, with the server as it is
  have hserver : (∀ e', e.ofHitTx = some e' → ∀ n, Concerns s.page n →
      e'.receiver ≠ some (.page n)) →
        Fits (pushedHits (es ++ [.server e])) t.server.hitTx s.page :=
    h.server hchannel hpushed hfirst
  -- the server as it was, with the hits that are pushed now
  have hlater : Fits (pushedHits (es ++ [.server e])) s.server.hitTx s.page :=
    h.server .idle hpushed ((sent_first_of_run hrun).trans hpushed) nofun
  generalize t.page = p' at hpage ⊢
  cases e with
  | pipeline e =>
      have hno : ∀ e', (HitServer.Event.pipeline e : HitServer.Event Client).ofHitTx = some e' →
          ∀ n, Concerns s.page n → e'.receiver ≠ some (.page n) := by
        intro e' he' n _
        cases e <;> cases he'
        nofun
      cases e with
      | hits r k answer =>
          have hanswer := Pipeline.answer_suffix (HitServer.run_pipeline (run_server hrun))
            hstep.server.of_some.pipeline.of_some
          cases hpage with
          | acts hpage =>
              cases hpage with
              | answer hr =>
                  refine (hserver hno).setLoad r ?_
                  rintro _ _ ⟨⟩
                  exact hanswer.isInfix.trans hpushed.isInfix
              | answerOther hr => exact hserver hno
      | _ =>
          cases hpage
          exact hserver hno
  | subscribed r =>
      cases r with
      | page n =>
          cases hpage with
          | acts hpage =>
              cases hpage with
              | subscribe hs hconnecting =>
                  exact hlater.subscribe hs hchannel.of_some (htimely (by rw [hs]; rfl))
              | subscribeClosed hlt hclosed =>
                  refine hserver ?_
                  rintro _ ⟨⟩ m hm ⟨⟩
                  exact not_concerns hlt hclosed hm
      | other n =>
          cases hpage
          exact hserver (by rintro _ ⟨⟩ m hm ⟨⟩)
  | received r hit =>
      cases r with
      | page n =>
          cases hpage with
          | acts hpage =>
              cases hpage with
              | write hs => exact hlater.write hs hchannel.of_some
              | writeClosed hclosed =>
                  refine hserver ?_
                  rintro _ ⟨⟩ m hm ⟨⟩
                  refine not_concerns (Nat.not_le.mp fun hle ↦ ?_) hclosed hm
                  obtain ⟨m, hsome, -⟩ := hchannel.of_some.next_received
                  cases (h.fresh n hle).symm.trans hsome
      | other n =>
          cases hpage
          exact hserver (by rintro _ ⟨⟩ m hm ⟨⟩)
  | lagged r =>
      cases r with
      | page n => exact hlag.elim
      | other n =>
          cases hpage
          exact hserver (by rintro _ ⟨⟩ m hm ⟨⟩)

/-- **The step lemma.** -/
theorem Fits.step (hrun : Run (Step arch limit) .initial es s)
    (h : Fits (pushedHits es) s.server.hitTx s.page) (hlag : NoLag e) (htimely : s.Timely e)
    (hstep : Step arch limit s e t) : Fits (pushedHits (es ++ [e])) t.server.hitTx t.page := by
  cases e with
  | server e => exact h.serverStep hrun hlag htimely hstep
  | page a =>
      have hserver : t.server = s.server := hstep.server.eq_of_none
      have hpushed : pushedHits (es ++ [.page a]) = pushedHits es := by
        rw [pushedHits, serverEvents, filterMap_snoc]
        simp [pushedHits, serverEvents]
      rw [hpushed, hserver]
      exact h.action htimely hstep.page.of_some

/-- **The run lemma.** -/
theorem fits (hrun : Run (Guarded (Step arch limit) Timely) .initial es s)
    (hlag : ∀ e ∈ es, NoLag e) : Fits (pushedHits es) s.server.hitTx s.page := by
  induction hrun with
  | nil => exact fits_initial
  | snoc hrun hstep ih =>
      refine (ih fun e he ↦ hlag e (List.mem_append_left _ he)).step hrun.of_guarded ?_
        hstep.1 hstep.2
      exact hlag _ (by simp)

/-! ## Lists without gaps -/

/-- The list is a piece of the hits that were pushed, so their numbers go on by one and each is
there once.  `seq` is the number modulo `2 ^ 64`. -/
structure Seamless (pushed hits : List Hit) : Prop where
  piece : hits <:+: pushed
  numbers : ∃ first, hits.map (fun hit ↦ hit.seq) =
      (List.range' first hits.length).map UInt64.ofNat ∧
    (pushed.length < 2 ^ 64 →
      hits.map (fun hit ↦ hit.seq.toNat) = List.range' first hits.length)

/-- A piece of the hits that were pushed. -/
theorem seamless_of_infix (hrun : Run (Step arch limit) .initial es s) {hits : List Hit}
    (h : hits <:+: pushedHits es) : Seamless (pushedHits es) hits := by
  refine ⟨h, ?_⟩
  obtain ⟨before, after, hsplit⟩ := h
  have hlen : before.length + hits.length ≤ (pushedHits es).length := by
    rw [← hsplit, List.length_append, List.length_append]
    exact Nat.le_add_right _ _
  have hpiece : ((pushedHits es).take (before.length + hits.length)).drop before.length = hits := by
    rw [← hsplit, ← List.length_append, List.take_left, List.drop_left]
  have hseq := Pipeline.numbers_drop (HitServer.run_pipeline (run_server hrun)) before.length hlen
  have hcount : before.length + hits.length - before.length = hits.length :=
    Nat.add_sub_cancel_left ..
  rw [← pushedHits, hpiece, hcount] at hseq
  exact ⟨_, hseq, fun hlt ↦ HitServer.map_seq_toNat hseq (by omega)⟩

/-- **The hit list** has no gap and no hit twice, in every state of every run whose stream does
not lag, when answers and subscriptions are timely. -/
theorem seamless_of_timely (hrun : Run (Guarded (Step arch limit) Timely) .initial es s)
    (hlag : ∀ e ∈ es, NoLag e) : Seamless (pushedHits es) s.page.hits :=
  seamless_of_infix hrun.of_guarded (fits hrun hlag).hits_piece

/-! ## A page that is connected -/

theorem Step.timely (h : Step arch limit s e t) (he : s.Timely e) :
    Guarded (Step arch limit) Timely s e t :=
  ⟨he, h⟩

theorem step_page {a : Page.Action} (h : Page.Step s.page (.action a) p') :
    Step arch limit s (.page a) ⟨s.server, p'⟩ :=
  ⟨.idle, .acts h⟩

theorem step_pipeline {e : Pipeline.Event} {q : Pipeline}
    (h : Pipeline.Step arch limit s.server.pipeline e q)
    (hpage : Takes Page.Step s.page (Event.server (.pipeline e)).ofPage p') :
    Step arch limit s (.server (.pipeline e))
      ⟨⟨q, { s.server.hitTx with sent := s.server.hitTx.sent ++ e.sentHit.toList }⟩, p'⟩ :=
  ⟨.acts (HitServer.step_pipeline h), hpage⟩

/-- The page stands still while the pipeline runs without an answer. -/
theorem run_of_pipeline {es : List Pipeline.Event} {q : Pipeline}
    (hrun : Run (Pipeline.Step arch limit) s.server.pipeline es q)
    (hes : ∀ e ∈ es, (Event.server (.pipeline e)).ofPage = none) :
    Run (Guarded (Step arch limit) Timely) s (es.map fun e ↦ .server (.pipeline e))
      ⟨⟨q, { s.server.hitTx with
        sent := s.server.hitTx.sent ++ Pipeline.sentHits es }⟩, s.page⟩ := by
  induction hrun with
  | nil => simpa [Pipeline.sentHits] using Run.nil
  | @snoc es q q' e _ hstep ih =>
      rw [List.map_append, List.map_singleton, Pipeline.sentHits_snoc, ← List.append_assoc]
      refine (ih fun e he ↦ hes e (List.mem_append_left _ he)).snoc ⟨trivial, ?_⟩
      refine step_pipeline hstep ?_
      rw [hes e (by simp)]
      exact .idle

/-- A page that listens to a server without hits. -/
structure Connected (s : Dashboard) : Prop where
  pipeline_eq : s.server.pipeline = .initial
  sent_eq : s.server.hitTx.sent = []
  next_eq : s.server.hitTx.next (.page 0) = some 0
  hitLimit_eq : s.page.hitLimit = 100
  hits_eq : s.page.hits = []
  stream_eq : s.page.stream = some ⟨0, .eventSource, .live, []⟩

theorem run_connected : ∃ es s, Run (Guarded (Step .aarch64 1) Timely) .initial es s ∧
    (∀ e ∈ es, NoLag e) ∧ Connected s ∧ s.page.loads 0 = .idle := by
  let locked : Pipeline := { Pipeline.initial with lock := .reader 1 }
  let hitTx : Broadcast.Channel Client Hit :=
    { sent := [], next := Function.update (fun _ ↦ none) (.page 0) (some 0) }
  let p₁ : Page := { Page.initial.setLoad 1 (.requested .connect 100) with stream := none }
  let p₂ := p₁.setLoad 1 (.answered .connect (some []))
  let p₃ : Page := { p₂.setLoad 1 .loaded with hits := [] }
  let p₄ := (p₃.setLoad 1 .done).openStream .eventSource
  let p₅ : Page := { p₄ with stream := some ⟨0, .eventSource, .subscribed, []⟩ }
  let p₆ : Page := { p₅ with stream := some ⟨0, .eventSource, .live, []⟩ }
  have hconnect : Step .aarch64 1 .initial (.page (.requested 1 .connect)) ⟨.initial, p₁⟩ :=
    step_page (.connect rfl)
  have hlock : Step .aarch64 1 ⟨.initial, p₁⟩ (.server (.pipeline (.tryLocked 1)))
      ⟨⟨locked, .empty⟩, p₁⟩ := step_pipeline (.tryLock rfl) .idle
  have hanswer : Step .aarch64 1 ⟨⟨locked, .empty⟩, p₁⟩
      (.server (.pipeline (.hits 1 (some 100) []))) ⟨.initial, p₂⟩ :=
    step_pipeline (.hits rfl) (.acts (.answer rfl))
  have hload : Step .aarch64 1 ⟨.initial, p₂⟩ (.page (.loaded 1)) ⟨.initial, p₃⟩ :=
    step_page (.replace (show p₂.loads 1 = .answered .connect (some []) from rfl))
  have hopen : Step .aarch64 1 ⟨.initial, p₃⟩ (.page (.opened 1)) ⟨.initial, p₄⟩ :=
    step_page (.openStream rfl)
  have hsubscribe : Step .aarch64 1 ⟨.initial, p₄⟩ (.server (.subscribed (.page 0)))
      ⟨⟨.initial, hitTx⟩, p₅⟩ :=
    ⟨.acts (HitServer.step_subscribed rfl),
      .acts (.subscribe (show p₄.stream = some ⟨0, .eventSource, .connecting, []⟩ from rfl) rfl)⟩
  have hlive : Step .aarch64 1 ⟨⟨.initial, hitTx⟩, p₅⟩ (.page .live) ⟨⟨.initial, hitTx⟩, p₆⟩ :=
    step_page (.live (show p₅.stream = some ⟨0, .eventSource, .subscribed, []⟩ from rfl) rfl)
  refine ⟨_, _, .cons (hconnect.timely trivial) (.cons (hlock.timely trivial)
    (.cons (hanswer.timely trivial) (.cons (hload.timely ?_) (.cons (hopen.timely trivial)
      (.cons (hsubscribe.timely ?_) (.single (hlive.timely trivial))))))), ?_,
        ⟨rfl, rfl, rfl, rfl, rfl, rfl⟩, rfl⟩
  · rintro _ _ - hits ⟨⟩
  · exact fun _ ↦ List.nil_suffix
  · simp [NoLag]

/-- A hit comes, and is on its way to the page. -/
theorem run_written (h : Connected s) : ∃ es t, Run (Guarded (Step .aarch64 1) Timely) s es t ∧
    (∀ e ∈ es, NoLag e) ∧ t.server.pipeline = Pipeline.oneState ∧
      t.page = { s.page with stream := some ⟨0, .eventSource, .live, [Pipeline.oneHit]⟩ } := by
  obtain ⟨⟨q, ⟨sent, next⟩⟩, ⟨hitLimit, hits, loads, stream, streams⟩⟩ := s
  obtain ⟨rfl, rfl, hnext, rfl, rfl, rfl⟩ := h
  let p : Page := ⟨100, [], loads, some ⟨0, .eventSource, .live, []⟩, streams⟩
  let p' : Page := { p with stream := some ⟨0, .eventSource, .live, [Pipeline.oneHit]⟩ }
  let hitTx : Broadcast.Channel Client Hit := ⟨[Pipeline.oneHit], next⟩
  have hpipeline : Run (Guarded (Step .aarch64 1) Timely) ⟨⟨.initial, ⟨[], next⟩⟩, p⟩
      (Pipeline.oneRun.map fun e ↦ .server (.pipeline e)) ⟨⟨Pipeline.oneState, hitTx⟩, p⟩ :=
    run_of_pipeline Pipeline.run_oneRun (by simp [Pipeline.oneRun])
  have hwritten : Step .aarch64 1 ⟨⟨Pipeline.oneState, hitTx⟩, p⟩
      (.server (.received (.page 0) Pipeline.oneHit)) ⟨⟨Pipeline.oneState,
        { hitTx with next := Function.update next (.page 0) (some 1) }⟩, p'⟩ :=
    ⟨.acts ⟨.idle, .acts (.receive hnext (show 1 ≤ 0 + hitTxCapacity by decide) rfl)⟩,
      .acts (.write (show p.stream = some ⟨0, .eventSource, .live, []⟩ from rfl))⟩
  exact ⟨_, _, hpipeline.snoc (hwritten.timely trivial), by simp [Pipeline.oneRun, NoLag], rfl, rfl⟩

/-- The first hit comes to a page that is connected. -/
theorem seamless_of_timely_one : ∃ es s, Run (Guarded (Step .aarch64 1) Timely) .initial es s ∧
    s.page.hits = [Pipeline.oneHit] ∧ Seamless (pushedHits es) s.page.hits := by
  obtain ⟨es₁, s, hconnected, hlag₁, h, -⟩ := run_connected
  obtain ⟨es₂, t, hwritten, hlag₂, -, hpage⟩ := run_written h
  have hstream : t.page.stream = some ⟨0, .eventSource, .live, [Pipeline.oneHit]⟩ := by rw [hpage]
  have happend : Step .aarch64 1 t (.page (.appended Pipeline.oneHit)) _ :=
    step_page (.append hstream rfl rfl)
  have hrun := (hconnected.append hwritten).snoc (happend.timely trivial)
  have hlag : ∀ e ∈ es₁ ++ es₂ ++ [.page (.appended Pipeline.oneHit)], NoLag e := by
    simp only [List.mem_append, List.mem_singleton]
    rintro e ((he | he) | rfl)
    · exact hlag₁ e he
    · exact hlag₂ e he
    · trivial
  refine ⟨_, _, hrun, ?_, seamless_of_timely hrun hlag⟩
  simp [hpage, h.hitLimit_eq, h.hits_eq, appendHit]

/-- A hit that is in flight while the list is loaded. -/
theorem not_seamless :
    ¬ ∀ (es : List Event) (s : Dashboard), Run (Step .aarch64 1) .initial es s →
      (∀ e ∈ es, NoLag e) → Seamless (pushedHits es) s.page.hits := by
  intro hclaim
  obtain ⟨es₁, s, hconnected, hlag₁, h, hidle⟩ := run_connected
  let s' : Dashboard := ⟨s.server, s.page.setLoad 0 (.requested .refresh s.page.hitLimit)⟩
  have hrefresh : Step .aarch64 1 s (.page (.requested 0 .refresh)) s' :=
    step_page (.load hidle (by simp))
  have h' : Connected s' :=
    ⟨h.pipeline_eq, h.sent_eq, h.next_eq, h.hitLimit_eq, h.hits_eq, h.stream_eq⟩
  obtain ⟨es₂, ⟨⟨q, hitTx⟩, _⟩, hwritten, hlag₂, rfl, rfl⟩ := run_written h'
  let p : Page := { s'.page with stream := some ⟨0, .eventSource, .live, [Pipeline.oneHit]⟩ }
  let p₁ := p.setLoad 0 (.answered .refresh (some [Pipeline.oneHit]))
  let p₂ : Page := { p₁.setLoad 0 .done with hits := [Pipeline.oneHit] }
  have hload : p.loads 0 = .requested .refresh (100 : Nat) := by
    rw [Nat.cast_ofNat, ← h.hitLimit_eq]
    rfl
  have hanswer : Step .aarch64 1 ⟨⟨Pipeline.oneState, hitTx⟩, p⟩
      (.server (.pipeline (.hits 0 (some 100) [Pipeline.oneHit]))) ⟨_, p₁⟩ :=
    step_pipeline (.hits rfl) (.acts (.answer hload))
  have hanswered : p₁.loads 0 = .answered .refresh (some [Pipeline.oneHit]) := rfl
  have hreplace : ∀ server : HitServer Client,
      Step .aarch64 1 ⟨server, p₁⟩ (.page (.loaded 0)) ⟨server, p₂⟩ :=
    fun _ ↦ step_page (.replace hanswered)
  have hstream : p₂.stream = some ⟨0, .eventSource, .live, [Pipeline.oneHit]⟩ := rfl
  have happend : ∀ server : HitServer Client,
      Step .aarch64 1 ⟨server, p₂⟩ (.page (.appended Pipeline.oneHit)) ⟨server, _⟩ :=
    fun _ ↦ step_page (.append hstream rfl rfl)
  have hrun := ((hconnected.of_guarded.snoc hrefresh).append hwritten.of_guarded).append
    (.cons hanswer (.cons (hreplace _) (.single (happend _))))
  have hlag : ∀ e ∈ es₁ ++ [.page (.requested 0 .refresh)] ++ es₂ ++
      [.server (.pipeline (.hits 0 (some 100) [Pipeline.oneHit])), .page (.loaded 0),
        .page (.appended Pipeline.oneHit)], NoLag e := by
    simp only [List.mem_append, List.mem_cons, List.not_mem_nil, or_false]
    rintro e (((he | rfl) | he) | rfl | rfl | rfl)
    · exact hlag₁ e he
    · trivial
    · exact hlag₂ e he
    all_goals trivial
  have hseamless : Seamless (pushedHits _)
      (appendHit s.page.hitLimit [Pipeline.oneHit] Pipeline.oneHit) := hclaim _ _ hrun hlag
  have htwice : appendHit 100 [Pipeline.oneHit] Pipeline.oneHit =
      [Pipeline.oneHit, Pipeline.oneHit] := by decide
  rw [h.hitLimit_eq, htwice] at hseamless
  -- both have the number 1
  obtain ⟨first, hseq, -⟩ := hseamless.numbers
  obtain ⟨hone, htwo⟩ : Pipeline.oneHit.seq = UInt64.ofNat first ∧
      Pipeline.oneHit.seq = UInt64.ofNat first + 1 := by
    simpa [List.range'] using hseq
  rw [← hone] at htwo
  exact absurd htwo (by decide)

end Dashboard

end Pwatch.Ui
