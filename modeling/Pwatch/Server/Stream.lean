import Mathlib.Data.List.Nodup
import Pwatch.Broadcast
import Pwatch.Runs.Parts
import Pwatch.Server.Retention

/-!
# The hit stream

`GET /hits/stream` hands a client the hits that `push_hit` broadcasts after the client has
subscribed.  The server is the pipeline together with the channel `hit_tx`: `send` of
`push_hit` is an action of both.  Storing a hit and sending it are two steps, and a client may
subscribe or read the buffer between them.
-/

namespace Pwatch.Server

open Pipeline in
/-- The hit the worker has stored and not sent. -/
def Pipeline.Worker.unsent : Worker → Option Hit
  | .stored hit => some hit
  | _ => none

/-- The capacity of `hit_tx`. -/
def hitTxCapacity : Nat := 1024

/-- The pipeline, and the channel to the clients. -/
structure HitServer (ρ : Type) where
  pipeline : Pipeline
  hitTx : Broadcast.Channel ρ Hit

namespace HitServer

variable {ρ : Type}

/-- The state `serve` starts with. -/
def initial : HitServer ρ where
  pipeline := .initial
  hitTx := .empty

inductive Event (ρ : Type)
  | pipeline (e : Pipeline.Event)
  | /-- `stream_hits` has subscribed a client. -/
    subscribed (r : ρ)
  | /-- The stream of a client yields a hit. -/
    received (r : ρ) (hit : Hit)
  | /-- The stream of a client yields `Lagged`, which `filter_map` drops. -/
    lagged (r : ρ)

/-- The action of the pipeline. -/
@[simp] def Event.ofPipeline : Event ρ → Option Pipeline.Event
  | .pipeline e => some e
  | _ => none

/-- The action of the channel. -/
@[simp] def Event.ofHitTx : Event ρ → Option (Broadcast.Event ρ Hit)
  | .pipeline (.sent hit) => some (.sent hit)
  | .pipeline _ => none
  | .subscribed r => some (.subscribed r)
  | .received r hit => some (.received r hit)
  | .lagged r => some (.lagged r)

variable [DecidableEq ρ] (arch : Arch) (limit : Nat)

/-- One action of the pipeline, of the channel, or of both. -/
structure Step (s : HitServer ρ) (e : Event ρ) (t : HitServer ρ) : Prop where
  pipeline : Takes (Pipeline.Step arch limit) s.pipeline e.ofPipeline t.pipeline
  hitTx : Takes (Broadcast.Step hitTxCapacity) s.hitTx e.ofHitTx t.hitTx

end HitServer

namespace Pipeline

/-! ## Sent hits -/

/-- The hit sent at an event. -/
@[simp] def Event.sentHit : Event → Option Hit
  | .sent hit => some hit
  | _ => none

/-- The hits that were sent, in order. -/
def sentHits (es : List Event) : List Hit := es.filterMap Event.sentHit

@[simp] theorem sentHits_snoc (es : List Event) (e : Event) :
    sentHits (es ++ [e]) = sentHits es ++ e.sentHit.toList :=
  filterMap_snoc _ es e

variable {arch : Arch} {limit : Nat} {es : List Event} {s t : Pipeline} {e : Event}

/-- Hits are sent in the order in which they were pushed, and one at most is still to be
sent. -/
theorem pushedHits_eq (hrun : Run (Step arch limit) initial es s) :
    pushedHits es = sentHits es ++ s.worker.unsent.toList := by
  induction hrun with
  | nil => rfl
  | snoc _ hstep ih =>
      cases hstep with
      | accept | reject | drop | tryLock | busy | hits => simpa using ih
      | receive hw _ | number hw _ | lock hw _ _ | store hw | skip hw _ | send hw =>
          rw [hw] at ih
          simpa [Worker.unsent] using ih

/-- The answer to `GET /hits` is a suffix of what was pushed. -/
theorem answer_suffix (hrun : Run (Step arch limit) initial es s) {request : Nat}
    {k : Option Nat} {answer : List Hit} (hstep : Step arch limit s (.hits request k answer) t) :
    answer <:+ pushedHits es := by
  cases hstep with
  | hits hlock =>
      rw [getHits_eq_rtake, (accounts hrun).buffer]
      exact (List.drop_suffix ..).trans (List.drop_suffix ..)

/-- The hits behind the first ones carry the numbers behind theirs. -/
theorem numbers_drop (hrun : Run (Step arch limit) initial es s) (lo : Nat) {hi : Nat}
    (hle : hi ≤ (pushedHits es).length) :
    (((pushedHits es).take hi).drop lo).map (fun hit ↦ hit.seq) =
      (List.range' (lo + 1) (hi - lo)).map UInt64.ofNat := by
  rw [List.map_drop, List.map_take, (accounts hrun).pushed_numbers, ← List.map_take,
    ← List.map_drop, List.take_range'_of_length_ge hle, List.drop_range']
  congr 2
  omega

end Pipeline

namespace HitServer

variable {ρ : Type} [DecidableEq ρ] {arch : Arch} {limit : Nat} {es : List (Event ρ)}
  {s t : HitServer ρ} {e : Event ρ} {r : ρ}

/-! ## The parts of a run -/

/-- The actions of the pipeline. -/
def pipelineEvents (es : List (Event ρ)) : List Pipeline.Event := es.filterMap Event.ofPipeline

/-- The actions of the channel. -/
def hitTxEvents (es : List (Event ρ)) : List (Broadcast.Event ρ Hit) :=
  es.filterMap Event.ofHitTx

theorem run_pipeline (hrun : Run (Step arch limit) s es t) :
    Run (Pipeline.Step arch limit) s.pipeline (pipelineEvents es) t.pipeline :=
  hrun.part (fun _ _ _ h ↦ h.pipeline)

theorem run_hitTx (hrun : Run (Step arch limit) s es t) :
    Run (Broadcast.Step hitTxCapacity) s.hitTx (hitTxEvents es) t.hitTx :=
  hrun.part (fun _ _ _ h ↦ h.hitTx)

omit [DecidableEq ρ] in
theorem lagged_mem_hitTxEvents {r : ρ} : .lagged r ∈ hitTxEvents es ↔ .lagged r ∈ es := by
  rw [hitTxEvents, List.mem_filterMap]
  constructor
  · rintro ⟨e, he, hlagged⟩
    cases e with
    | pipeline e => cases e <;> cases hlagged
    | subscribed _ | received _ _ => cases hlagged
    | lagged r' =>
        cases hlagged
        exact he
  · exact fun he ↦ ⟨_, he, rfl⟩

omit [DecidableEq ρ] in
/-- The channel is sent what the pipeline sends. -/
theorem sentValues_hitTxEvents (es : List (Event ρ)) :
    Broadcast.sentValues (hitTxEvents es) = Pipeline.sentHits (pipelineEvents es) := by
  rw [Broadcast.sentValues, hitTxEvents, Pipeline.sentHits, pipelineEvents,
    List.filterMap_filterMap, List.filterMap_filterMap]
  refine List.filterMap_congr fun e _ ↦ ?_
  cases e with
  | pipeline e => cases e <;> rfl
  | _ => rfl

/-- The channel has what the pipeline has sent. -/
theorem sent_eq (hrun : Run (Step arch limit) .initial es s) :
    s.hitTx.sent = Pipeline.sentHits (pipelineEvents es) := by
  rw [Broadcast.sent_eq (run_hitTx hrun), sentValues_hitTxEvents]
  rfl

/-- The number of hits `push_hit` has taken past the buffer. -/
def pushed (s : HitServer ρ) : Nat :=
  s.hitTx.sent.length + s.pipeline.worker.unsent.toList.length

/-- The hits that were pushed were sent, or the last is still to be sent. -/
theorem pushedHits_eq (hrun : Run (Step arch limit) .initial es s) :
    Pipeline.pushedHits (pipelineEvents es) = s.hitTx.sent ++ s.pipeline.worker.unsent.toList := by
  rw [sent_eq hrun]
  exact Pipeline.pushedHits_eq (run_pipeline hrun)

theorem length_pushedHits (hrun : Run (Step arch limit) .initial es s) :
    (Pipeline.pushedHits (pipelineEvents es)).length = s.pushed := by
  rw [pushedHits_eq hrun, List.length_append, pushed]

omit [DecidableEq ρ] in
theorem pushed_le (s : HitServer ρ) : s.pushed ≤ s.hitTx.sent.length + 1 := by
  rw [pushed]
  cases s.pipeline.worker.unsent <;> simp

omit [DecidableEq ρ] in
/-- The hits that were pushed stay the first ones. -/
theorem pushedHits_prefix (es fs : List (Event ρ)) :
    Pipeline.pushedHits (pipelineEvents es) <+:
      Pipeline.pushedHits (pipelineEvents (es ++ fs)) := by
  rw [pipelineEvents, pipelineEvents, Pipeline.pushedHits, Pipeline.pushedHits,
    List.filterMap_append, List.filterMap_append]
  exact List.prefix_append _ _

theorem sent_length_le (hrun : Run (Step arch limit) s es t) :
    s.hitTx.sent.length ≤ t.hitTx.sent.length := by
  rw [Broadcast.sent_eq (run_hitTx hrun), List.length_append]
  exact Nat.le_add_right _ _

/-! ## A client that subscribes and reads the buffer -/

/-- The hits of a client since its subscription: what its stream has yielded, and what is on its
way. -/
def streamed (r : ρ) (since : List (Event ρ)) (s : HitServer ρ) : List Hit :=
  Broadcast.receivedValues r (hitTxEvents since) ++ s.hitTx.pending r

/-- What a client has: `shown` are the numbers in the answer to a `GET /hits`, and `seen` those in
its stream.  The number of a hit counts the hits from 1 on, and its `seq` is this number modulo
`2 ^ 64`. -/
structure LosesNoHit (s : HitServer ρ) (answer streamed : List Hit) (shown seen : List Nat) :
    Prop where
  answer_numbers : answer.map (fun hit ↦ hit.seq) = shown.map UInt64.ofNat
  streamed_numbers : streamed.map (fun hit ↦ hit.seq) = seen.map UInt64.ofNat
  /-- Together they are an interval, up to the last hit that was sent or to the next one, which
  is stored and not sent. -/
  interval : ∃ first last, (∀ n, n ∈ shown ∨ n ∈ seen ↔ first ≤ n ∧ n < last) ∧
    (first < last → last = s.hitTx.sent.length + 1 ∨
      last = s.hitTx.sent.length + 2 ∧ ∃ hit, s.pipeline.worker = .stored hit)
  /-- The stream goes on by one. -/
  consecutive : seen.IsChain fun m n ↦ n = m + 1
  /-- What is there twice is in the answer. -/
  twice : ∀ n, 1 < (shown ++ seen).count n → n ∈ shown
  /-- As long as the counter has not wrapped, `seq` is the number. -/
  exact_numbers : s.pushed < 2 ^ 64 →
    answer.map (fun hit ↦ hit.seq.toNat) = shown ∧ streamed.map (fun hit ↦ hit.seq.toNat) = seen

/-- Two intervals that overlap or touch. -/
theorem mem_range'_or {lo hi start sent : Nat} (hstart : start ≤ hi) (hhi : hi ≤ sent + 1)
    (hlo : lo ≤ hi) (hsent : start ≤ sent) :
    ∃ first last,
      (∀ n, n ∈ List.range' (lo + 1) (hi - lo) ∨ n ∈ List.range' (start + 1) (sent - start) ↔
        first ≤ n ∧ n < last) ∧
      (first < last → last = sent + 1 ∨ last = sent + 2 ∧ hi = sent + 1) := by
  simp only [List.mem_range'_1]
  rcases Nat.eq_or_lt_of_le hlo with rfl | hlt
  · exact ⟨start + 1, sent + 1, by omega, by omega⟩
  · exact ⟨min lo start + 1, max hi sent + 1, by omega, by omega⟩

theorem mem_of_one_lt_count {shown seen : List Nat} (h : seen.Nodup) {n : Nat}
    (hcount : 1 < (shown ++ seen).count n) : n ∈ shown := by
  by_contra hmem
  rw [List.count_append, List.count_eq_zero.mpr hmem, Nat.zero_add] at hcount
  exact Nat.not_le.mpr hcount (List.nodup_iff_count_le_one.mp h n)

omit [DecidableEq ρ] in
/-- A hit that was pushed and not sent is with the worker. -/
theorem exists_stored (h : s.hitTx.sent.length < s.pushed) :
    ∃ hit, s.pipeline.worker = .stored hit := by
  rw [pushed] at h
  cases hw : s.pipeline.worker with
  | stored hit => exact ⟨hit, rfl⟩
  | waiting | received _ | numbered _ | locked _ =>
      rw [hw] at h
      exact absurd h (Nat.lt_irrefl _)

/-- The channel has the first hits that were pushed. -/
theorem sent_eq_take (hrun : Run (Step arch limit) .initial es s) :
    s.hitTx.sent = (Pipeline.pushedHits (pipelineEvents es)).take s.hitTx.sent.length := by
  rw [pushedHits_eq hrun, List.take_left]

/-- A piece of the hits that were pushed has consecutive numbers. -/
theorem map_seq_piece (hrun : Run (Step arch limit) .initial es s) (lo : Nat) {hi : Nat}
    (hhi : hi ≤ s.pushed) :
    ((((Pipeline.pushedHits (pipelineEvents es)).take hi).drop lo).map fun hit ↦ hit.seq) =
      (List.range' (lo + 1) (hi - lo)).map UInt64.ofNat :=
  Pipeline.numbers_drop (run_pipeline hrun) lo (length_pushedHits hrun ▸ hhi)

theorem map_seq_toNat {hits : List Hit} {first n : Nat}
    (hseq : hits.map (fun hit ↦ hit.seq) = (List.range' first n).map UInt64.ofNat)
    (hlt : first + n ≤ 2 ^ 64) : hits.map (fun hit ↦ hit.seq.toNat) = List.range' first n := by
  calc hits.map (fun hit ↦ hit.seq.toNat)
      = (hits.map fun hit ↦ hit.seq).map UInt64.toNat := by simp
    _ = List.range' first n := by rw [hseq, map_toNat_range' hlt]

/-- An answer that ends at `hi` and a stream that begins behind `start`. -/
theorem losesNoHit_of_pieces (hrun : Run (Step arch limit) .initial es s) {lo hi start : Nat}
    (hlo : lo ≤ hi) (hhi : hi ≤ s.pushed) (hstart : start ≤ hi)
    (hsent : start ≤ s.hitTx.sent.length) :
    LosesNoHit s (((Pipeline.pushedHits (pipelineEvents es)).take hi).drop lo)
      (s.hitTx.sent.drop start) (List.range' (lo + 1) (hi - lo))
      (List.range' (start + 1) (s.hitTx.sent.length - start)) := by
  have hpushed := s.pushed_le
  have hanswer := map_seq_piece hrun lo hhi
  have hstreamed : (s.hitTx.sent.drop start).map (fun hit ↦ hit.seq) =
      (List.range' (start + 1) (s.hitTx.sent.length - start)).map UInt64.ofNat := by
    rw [sent_eq_take hrun, map_seq_piece hrun start (by rw [pushed]; omega), ← sent_eq_take hrun]
  obtain ⟨first, last, hmem, hlast⟩ := mem_range'_or hstart (by omega) hlo hsent
  exact {
    answer_numbers := hanswer
    streamed_numbers := hstreamed
    interval := by
      refine ⟨first, last, hmem, fun hlt ↦ (hlast hlt).imp id fun ⟨heq, hhi'⟩ ↦ ⟨heq, ?_⟩⟩
      exact exists_stored (by omega)
    consecutive := List.isChain_range' ..
    twice := fun n ↦ mem_of_one_lt_count List.nodup_range'
    exact_numbers := fun hlt ↦ by
      refine ⟨map_seq_toNat hanswer (by omega), map_seq_toNat hstreamed ?_⟩
      rw [pushed] at hlt
      omega }

/-- **Subscribe, then read.**  A client whose stream does not lag, and that reads the buffer after
it has subscribed, loses no hit. -/
theorem subscribe_then_snapshot {before since : List (Event ρ)}
    (hrun : Run (Step arch limit) .initial (before ++ .subscribed r :: since) s)
    (hlag : .lagged r ∉ since) {request : Nat} {k : Option Nat} {answer : List Hit}
    (hanswer : .pipeline (.hits request k answer) ∈ since) :
    ∃ shown seen, LosesNoHit s answer (streamed r since s) shown seen := by
  obtain ⟨t, u, ht, hsubscribe, hsince⟩ := hrun.split_event
  obtain ⟨middle, after, rfl⟩ := List.append_of_mem hanswer
  obtain ⟨v, w, hmiddle, hread, hafter⟩ := hsince.split_event
  -- the stream begins behind the hits that were sent before it
  have hstart := hsubscribe.hitTx.of_some.next_subscribed
  have hstreamed : streamed r (middle ++ .pipeline (.hits request k answer) :: after) s =
      s.hitTx.sent.drop u.hitTx.sent.length := by
    refine Broadcast.received_append_pending (run_hitTx hsince) hstart (Nat.le_refl _) ?_
    rintro e he rfl
    exact hlag (lagged_mem_hitTxEvents.mp he)
  -- the answer ends with the last hit that was pushed before it
  have hbefore : Run (Step arch limit) .initial (before ++ .subscribed r :: middle) v :=
    ht.append (hmiddle.cons hsubscribe)
  have hanswer := List.suffix_iff_eq_drop.mp
    (Pipeline.answer_suffix (run_pipeline hbefore) hread.pipeline.of_some)
  rw [length_pushedHits hbefore] at hanswer
  have hfirst := pushedHits_prefix (before ++ .subscribed r :: middle)
    (.pipeline (.hits request k answer) :: after)
  rw [List.append_assoc, List.cons_append] at hfirst
  have hpiece := List.prefix_iff_eq_take.mp hfirst
  have hpushed := hfirst.length_le
  rw [length_pushedHits hbefore] at hpiece hpushed
  rw [length_pushedHits hrun] at hpushed
  rw [hstreamed, hanswer, hpiece]
  have hsent : u.hitTx.sent.length ≤ v.hitTx.sent.length := sent_length_le hmiddle
  have hsent' := sent_length_le hsince
  refine ⟨_, _, losesNoHit_of_pieces hrun (Nat.sub_le ..) hpushed ?_ hsent'⟩
  rw [pushed]
  omega

/-- The pipeline can always act, and the channel takes what it sends. -/
theorem step_pipeline {p : Pipeline} {e : Pipeline.Event}
    (h : Pipeline.Step arch limit s.pipeline e p) :
    Step arch limit s (.pipeline e)
      ⟨p, { s.hitTx with sent := s.hitTx.sent ++ e.sentHit.toList }⟩ where
  pipeline := .acts h
  hitTx := by
    cases e with
    | sent hit => exact .acts .send
    | _ =>
        simp only [Event.ofHitTx, Pipeline.Event.sentHit, Option.toList_none, List.append_nil]
        exact .idle

/-- A run of the pipeline is a run of the server. -/
theorem run_of_pipeline {p : Pipeline} {es : List Pipeline.Event}
    (hrun : Run (Pipeline.Step arch limit) s.pipeline es p) :
    Run (Step arch limit) s (es.map .pipeline)
      ⟨p, { s.hitTx with sent := s.hitTx.sent ++ Pipeline.sentHits es }⟩ := by
  induction hrun with
  | nil => simpa [Pipeline.sentHits] using Run.nil
  | snoc _ hstep ih =>
      rw [List.map_append, List.map_singleton, Pipeline.sentHits_snoc, ← List.append_assoc]
      exact ih.snoc (step_pipeline hstep)

/-- A client subscribes. -/
theorem step_subscribed (h : s.hitTx.next r = none) :
    Step arch limit s (.subscribed r) { s with hitTx := { s.hitTx with
      next := Function.update s.hitTx.next r (some s.hitTx.sent.length) } } where
  pipeline := .idle
  hitTx := .acts (.subscribe h)

/-- A client that has subscribed before the first hit has it from the answer and from its stream. -/
theorem subscribe_then_snapshot_one :
    ∃ (s : HitServer Unit) (since : List (Event Unit)) (shown seen : List Nat),
      Run (Step .aarch64 1) .initial (.subscribed () :: since) s ∧
        streamed () since s = [Pipeline.oneHit] ∧
        LosesNoHit s [Pipeline.oneHit] (streamed () since s) shown seen := by
  let s₁ : HitServer Unit := ⟨.initial, ⟨[], Function.update (fun _ ↦ none) () (some 0)⟩⟩
  have hsubscribe : Step .aarch64 1 (.initial : HitServer Unit) (.subscribed ()) s₁ :=
    step_subscribed rfl
  have hhits : Pipeline.Step .aarch64 1 Pipeline.oneState (.hits 0 none [Pipeline.oneHit])
      { Pipeline.oneState with lock := .free } := .hits rfl
  let since : List (Event Unit) :=
    (Pipeline.oneRun ++ [Pipeline.Event.hits 0 none [Pipeline.oneHit]]).map .pipeline
  have hsince : Run (Step .aarch64 1) s₁ since _ := run_of_pipeline (Pipeline.run_oneRun.snoc hhits)
  have hrun : Run (Step .aarch64 1) .initial ([] ++ .subscribed () :: since) _ :=
    hsince.cons hsubscribe
  have hanswer : .pipeline (.hits 0 none [Pipeline.oneHit]) ∈ since := by simp [since]
  obtain ⟨shown, seen, h⟩ := subscribe_then_snapshot hrun (by simp [since]) hanswer
  exact ⟨_, _, shown, seen, hrun, rfl, h⟩

end HitServer

end Pwatch.Server
