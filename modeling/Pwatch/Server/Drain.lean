import Pwatch.Runs.Rank
import Pwatch.Server.Stream

/-!
# The pipeline comes to rest

When no watch delivers and no request comes in, the hit worker, the readers that hold the
buffer and the stream of a client go on by themselves.  They cannot go on for ever and they
cannot get stuck on each other: where none of them has anything left to do, every sample
that was ever accepted is a hit in the buffer's history, and the client has it
(`comes_to_rest`).
-/

namespace Pwatch.Server

namespace Pipeline

variable {arch : Arch} {limit : Nat} {es : List Event} {s t : Pipeline} {e : Event}

/-- The worker goes on, or a reader gives the buffer back. -/
@[simp] def Event.Settles : Event → Prop
  | .received _ | .numbered _ _ | .locked | .pushed _ | .sent _ | .hits _ _ _ => True
  | .accepted _ | .rejected _ | .dropped _ | .tryLocked _ | .busy _ => False

/-- The worker has the mutex exactly in the locked section. -/
theorem lock_eq_worker_iff (hrun : Run (Step arch limit) initial es s) :
    s.lock = .worker ↔ ∃ hit, s.worker = .locked hit := by
  induction hrun with
  | nil => simp [initial]
  | snoc _ hstep ih =>
      cases hstep with
      | accept | reject | drop | busy => exact ih
      | receive hw _ | number hw _ | skip hw _ | send hw => simpa [hw] using ih
      | lock _ _ _ => simp
      | store _ => simp
      | tryLock hlock => simpa [hlock] using ih
      | hits hlock => simpa [hlock] using ih

/-- What the worker has still to do with the sample it has. -/
def Worker.toGo : Worker → Nat
  | .waiting => 0
  | .stored _ => 2
  | .locked _ => 3
  | .numbered _ => 4
  | .received _ => 5

/-- What a reader has still to do with the buffer. -/
def Lock.toGo : Lock → Nat
  | .free | .worker => 0
  | .reader _ => 1

/-- What is left to do when nothing comes in. -/
def toGo (s : Pipeline) : Nat := 7 * s.queue.length + s.worker.toGo + s.lock.toGo

theorem toGo_le (s : Pipeline) : s.toGo ≤ 7 * s.queue.length + 6 := by
  have hworker : s.worker.toGo ≤ 5 := by cases s.worker <;> simp [Worker.toGo]
  have hlock : s.lock.toGo ≤ 1 := by cases s.lock <;> simp [Lock.toGo]
  rw [toGo]
  omega

/-- Each step takes something off, and a hit that is sent is worth one more. -/
theorem Step.toGo_lt (h : Step arch limit s e t) (hsettles : e.Settles) :
    t.toGo + e.sentHit.toList.length < s.toGo := by
  cases h with
  | accept | reject | drop | tryLock | busy => exact hsettles.elim
  | receive hw hq =>
      simp only [toGo, Worker.toGo, hw, hq, List.length_cons, Event.sentHit, Option.toList_none,
        List.length_nil]
      omega
  | number hw _ | skip hw _ => simp [toGo, Worker.toGo, hw]
  | send hw =>
      simp only [toGo, Worker.toGo, hw, Event.sentHit, Option.toList_some, List.length_singleton]
      omega
  | lock hw _ hlock => simp [toGo, Worker.toGo, Lock.toGo, hw, hlock]
  | store hw =>
      simp only [toGo, Worker.toGo, Lock.toGo, hw, Event.sentHit, Option.toList_none,
        List.length_nil]
      omega
  | hits hlock => simp [toGo, Lock.toGo, hlock]

/-- **Nobody waits for nobody**: where the worker and the readers can do nothing, there is
nothing left to do. -/
theorem idle_of_stuck (hrun : Run (Step arch limit) initial es s)
    (hstuck : ∀ e t, Step arch limit s e t → ¬ e.Settles) :
    s.queue = [] ∧ s.worker = .waiting ∧ s.lock = .free := by
  have hlock : s.lock = .free ∨ ∃ hit, s.worker = .locked hit := by
    cases hl : s.lock with
    | free => exact .inl rfl
    | worker => exact .inr ((lock_eq_worker_iff hrun).mp hl)
    | reader request => exact (hstuck _ _ (.hits (k := none) hl) trivial).elim
  cases hw : s.worker with
  | waiting =>
      rw [hw] at hlock
      refine ⟨?_, rfl, hlock.resolve_right (by simp)⟩
      cases hq : s.queue with
      | nil => rfl
      | cons sample rest => exact (hstuck _ _ (.receive hw hq) trivial).elim
  | received sample =>
      exact (hstuck _ _ (@Step.number arch limit s sample 0 [] none _ _ hw rfl) trivial).elim
  | numbered hit =>
      rw [hw] at hlock
      rcases Nat.eq_zero_or_pos limit with hzero | hpos
      · exact (hstuck _ _ (.skip hw hzero) trivial).elim
      · exact (hstuck _ _ (.lock hw hpos (hlock.resolve_right (by simp))) trivial).elim
  | locked hit => exact (hstuck _ _ (.store hw) trivial).elim
  | stored hit => exact (hstuck _ _ (.send hw) trivial).elim

/-- The worker accepts nothing. -/
theorem acceptedSample_of_settles (h : e.Settles) : e.acceptedSample = none := by
  cases e <;> first | rfl | exact h.elim

end Pipeline

namespace HitServer

variable {ρ : Type} {r : ρ}

/-- The pipeline goes on with what it has, or the stream of the client does. -/
@[simp] def Event.Settles (r : ρ) : Event ρ → Prop
  | .pipeline e => Pipeline.Event.Settles e
  | .subscribed _ => False
  | .received r' _ | .lagged r' => r' = r

variable [DecidableEq ρ]

/-- A step while nothing comes in. -/
def Settling (arch : Arch) (limit : Nat) (r : ρ) (s : HitServer ρ) (e : Event ρ)
    (t : HitServer ρ) : Prop :=
  Step arch limit s e t ∧ e.Settles r

variable {arch : Arch} {limit : Nat} {es fs : List (Event ρ)} {s t : HitServer ρ} {e : Event ρ}

omit [DecidableEq ρ] in
/-- What is left to do for the worker and for the client. -/
def toGo (r : ρ) (s : HitServer ρ) : Nat := s.pipeline.toGo + (s.hitTx.pending r).length

/-- The rank of a settling run falls at each step. -/
theorem toGo_lt (h : Settling arch limit r s e t) : t.toGo r < s.toGo r := by
  obtain ⟨⟨hpipeline, hhitTx⟩, hsettles⟩ := h
  cases e with
  | pipeline pe =>
      have hlt := hpipeline.of_some.toGo_lt hsettles
      have hpending : (t.hitTx.pending r).length ≤
          (s.hitTx.pending r).length + pe.sentHit.toList.length := by
        cases pe with
        | sent hit => exact hhitTx.of_some.length_pending_sent
        | _ => rw [hhitTx.eq_of_none]; exact Nat.le_add_right _ _
      rw [toGo, toGo]
      omega
  | subscribed => exact hsettles.elim
  | received r' hit =>
      obtain rfl := hsettles
      have hlt := hhitTx.of_some.length_pending_lt rfl (fun _ heq ↦ by cases heq)
      rw [toGo, toGo, hpipeline.eq_of_none]
      omega
  | lagged r' =>
      obtain rfl := hsettles
      have hlt := hhitTx.of_some.length_pending_lt rfl (fun _ heq ↦ by cases heq)
      rw [toGo, toGo, hpipeline.eq_of_none]
      omega

/-- Where nothing settles, the pipeline is idle and the client has everything. -/
theorem idle_of_stuck (hrun : Run (Step arch limit) .initial es s)
    (hstuck : ∀ e t, ¬ Settling arch limit r s e t) :
    (s.pipeline.queue = [] ∧ s.pipeline.worker = .waiting ∧ s.pipeline.lock = .free) ∧
      s.hitTx.pending r = [] := by
  constructor
  · exact Pipeline.idle_of_stuck (run_pipeline hrun) fun e p hstep hsettles ↦
      hstuck (.pipeline e) _ ⟨step_pipeline hstep, hsettles⟩
  · by_contra hpending
    obtain ⟨hitTx, ⟨hit, hstep⟩ | hstep⟩ :=
      Broadcast.exists_step_of_pending hitTxCapacity hpending
    · exact hstuck (.received r hit) ⟨s.pipeline, hitTx⟩ ⟨⟨.idle, .acts hstep⟩, rfl⟩
    · exact hstuck (.lagged r) ⟨s.pipeline, hitTx⟩ ⟨⟨.idle, .acts hstep⟩, rfl⟩

/-- A settling run accepts nothing. -/
theorem acceptedSamples_of_settling (hrun : Run (Settling arch limit r) s fs t) :
    Pipeline.acceptedSamples (pipelineEvents fs) = [] := by
  rw [Pipeline.acceptedSamples, pipelineEvents, List.filterMap_filterMap,
    List.filterMap_eq_nil_iff]
  intro e he
  obtain ⟨before, after, rfl⟩ := List.append_of_mem he
  obtain ⟨_, _, _, hstep, _⟩ := hrun.split_event
  cases e with
  | pipeline pe => exact Pipeline.acceptedSample_of_settles hstep.2
  | _ => rfl

/-- **The pipeline comes to rest.**  From every state the server can reach, the worker, the
readers and the stream of a client can take only so many steps while nothing comes in.  Where
none of them can take another one,

* every sample that was accepted was made a hit, and every hit was stored and sent, each once
  and in order;
* the buffer holds the newest `limit` of these hits and is free;
* a client that did not lag has received all that were sent since it subscribed. -/
theorem comes_to_rest (hrun : Run (Step arch limit) .initial es s)
    (hfs : Run (Settling arch limit r) s fs t) :
    fs.length ≤ 7 * s.pipeline.queue.length + 6 + (s.hitTx.pending r).length ∧
      ((∀ e u, ¬ Settling arch limit r t e u) →
        let numbered := Pipeline.numberedSamples (pipelineEvents (es ++ fs))
        numbered.map Prod.fst = Pipeline.acceptedSamples (pipelineEvents es) ∧
          t.hitTx.sent = numbered.map Prod.snd ∧
          t.pipeline.hitBuffer = t.hitTx.sent.rtake limit ∧ t.pipeline.lock = .free ∧
          ∀ before since, es ++ fs = before ++ .subscribed r :: since → .lagged r ∉ since →
            Broadcast.receivedValues r (hitTxEvents since) =
              t.hitTx.sent.drop (Pipeline.sentHits (pipelineEvents before)).length) := by
  have hall : Run (Step arch limit) .initial (es ++ fs) t :=
    hrun.append (hfs.mono fun _ _ _ h ↦ h.1)
  constructor
  · obtain ⟨-, hle⟩ := hfs.length_add_rank_le (fun _ ↦ True) (toGo r) trivial
      fun s e t _ h ↦ ⟨trivial, toGo_lt h⟩
    have hpipeline := s.pipeline.toGo_le
    rw [toGo, toGo] at hle
    omega
  · intro hstuck numbered
    obtain ⟨⟨hqueue, hworker, hlock⟩, hpending⟩ := idle_of_stuck hall hstuck
    have acc := Pipeline.accounts (run_pipeline hall)
    have hsamples := acc.samples
    have hmade := acc.made
    have hsent := pushedHits_eq hall
    rw [hworker, hqueue] at hsamples
    rw [hworker] at hmade hsent
    simp only [Pipeline.Worker.held, Pipeline.Worker.unstored, Pipeline.Worker.unsent,
      Option.toList_none, List.append_nil] at hsamples hmade hsent
    have haccepted : Pipeline.acceptedSamples (pipelineEvents (es ++ fs)) =
        Pipeline.acceptedSamples (pipelineEvents es) := by
      rw [pipelineEvents, List.filterMap_append, Pipeline.acceptedSamples, List.filterMap_append]
      change Pipeline.acceptedSamples (pipelineEvents es) ++
        Pipeline.acceptedSamples (pipelineEvents fs) = _
      rw [acceptedSamples_of_settling hfs, List.append_nil]
    refine ⟨hsamples.symm.trans haccepted, hsent.symm.trans hmade.symm, ?_, hlock, ?_⟩
    · rw [acc.buffer, hsent]
    · intro before since heq hlag
      rw [heq] at hall
      obtain ⟨u, v, hbefore, hsubscribe, hsince⟩ := hall.split_event
      have hstart := hsubscribe.hitTx.of_some.next_subscribed
      have hsame := hsubscribe.hitTx.of_some.sent_subscribed
      have hreceived := Broadcast.received_append_pending (run_hitTx hsince) hstart le_rfl
        fun e he ↦ by
          rintro rfl
          exact hlag (lagged_mem_hitTxEvents.mp he)
      rw [hpending, List.append_nil] at hreceived
      rw [hreceived, hsame, sent_eq hbefore]

/-- A run of the pipeline alone, seen by a client. -/
theorem settling_of_pipeline {p : Pipeline} {pes : List Pipeline.Event}
    (hrun : Run (Pipeline.Step arch limit) s.pipeline pes p) (hsettles : ∀ e ∈ pes, e.Settles) :
    Run (Settling arch limit r) s (pes.map .pipeline)
      ⟨p, { s.hitTx with sent := s.hitTx.sent ++ Pipeline.sentHits pes }⟩ := by
  have hguarded : Run (Guarded (Step arch limit) fun _ e ↦ e.Settles r) s _ _ :=
    (run_of_pipeline hrun).guarded fun e he _ ↦ by
      obtain ⟨pe, hpe, rfl⟩ := List.mem_map.mp he
      exact hsettles pe hpe
  exact hguarded.mono fun _ _ _ hstep ↦ ⟨hstep.2, hstep.1⟩

/-- One sample that was accepted after a client has subscribed. -/
theorem comes_to_rest_oneSample :
    ∃ s t : HitServer Unit, ∃ fs : List (Event Unit),
      Run (Step .aarch64 1) .initial
        [.subscribed (), .pipeline (.accepted Pipeline.oneSample)] s ∧
      Run (Settling .aarch64 1 ()) s fs t ∧ fs.length ≤ 13 ∧
      t.hitTx.sent = [Pipeline.oneHit] ∧ t.pipeline.hitBuffer = [Pipeline.oneHit] ∧
      Broadcast.receivedValues () (hitTxEvents (.pipeline (.accepted Pipeline.oneSample) :: fs)) =
        [Pipeline.oneHit] := by
  let s₁ : HitServer Unit := ⟨.initial, ⟨[], Function.update (fun _ ↦ none) () (some 0)⟩⟩
  let s₂ : HitServer Unit := ⟨{ Pipeline.initial with queue := [Pipeline.oneSample] }, s₁.hitTx⟩
  have hes : Run (Step .aarch64 1) (.initial : HitServer Unit) _ s₂ :=
    .cons (step_subscribed rfl : Step .aarch64 1 .initial (.subscribed ()) s₁)
      (.single (step_pipeline (.accept rfl (by decide))))
  let pes : List Pipeline.Event := [.received Pipeline.oneSample,
    .numbered Pipeline.oneSample Pipeline.oneHit, .locked, .pushed Pipeline.oneHit,
    .sent Pipeline.oneHit]
  have hpes : Run (Pipeline.Step .aarch64 1) s₂.pipeline pes
      { Pipeline.initial with nextSeq := 1, hitBuffer := [Pipeline.oneHit] } :=
    .snoc (.snoc (.snoc (.snoc (.snoc .nil (.receive rfl rfl)) (.number rfl rfl))
      (.lock rfl (by decide) rfl)) (.store rfl)) (.send rfl)
  let s₃ : HitServer Unit :=
    ⟨{ Pipeline.initial with nextSeq := 1, hitBuffer := [Pipeline.oneHit] },
      { s₁.hitTx with sent := [Pipeline.oneHit] }⟩
  let s₄ : HitServer Unit := { s₃ with hitTx := { s₃.hitTx with
    next := Function.update s₃.hitTx.next () (some 1) } }
  have hsettles : Run (Settling .aarch64 1 ()) s₂ (pes.map .pipeline) s₃ :=
    settling_of_pipeline hpes (by simp [pes])
  have hreceive : Settling .aarch64 1 () s₃ (.received () Pipeline.oneHit) s₄ :=
    ⟨⟨.idle, .acts (.receive rfl (by decide) rfl)⟩, rfl⟩
  have hfs := hsettles.snoc hreceive
  obtain ⟨hlength, hrest⟩ := comes_to_rest hes hfs
  obtain ⟨-, hsent, hbuffer, -, hclient⟩ := hrest fun e u h ↦
    Nat.not_lt_zero _ (toGo_lt h)
  refine ⟨s₂, _, _, hes, hfs, hlength, hsent, hbuffer, ?_⟩
  exact hclient [] _ rfl (by simp [pes])

end HitServer

end Pwatch.Server
