import Pwatch.Server.Pipeline
import Mathlib.Data.List.DropRight
import Mathlib.Data.List.Range
import Mathlib.Data.Option.Basic

/-!
# What the hit pipeline keeps

`Accounts` relates the history of a run to its state: which samples are where,
and which hits the buffer holds.  Every step keeps it (`Accounts.step`), so it
holds after every run, and the conservation and retention properties are read off
it.  No counter of the state is trusted on its own; each is tied to the list of
events it counts.
-/

namespace Pwatch.Server

/-! ## The eviction loop -/

/-- The loop keeps the newest `limit - 1` entries. -/
theorem evict_eq_rtake {α : Type} {limit : Nat} (h : 0 < limit) (buffer : List α) :
    evict limit buffer = buffer.rtake (limit - 1) := by
  induction buffer with
  | nil => simp [evict]
  | cons hit rest ih =>
      rw [evict]
      split
      · rename_i hfull
        rw [ih, List.rtake, List.rtake]
        have hlen : (hit :: rest).length - (limit - 1) = (rest.length - (limit - 1)) + 1 := by
          simp only [List.length_cons] at hfull ⊢
          omega
        rw [hlen, List.drop_succ_cons]
      · rename_i hroom
        rw [List.rtake, Nat.sub_eq_zero_of_le (by omega), List.drop_zero]

theorem rtake_rtake_succ {α : Type} (k : Nat) (l : List α) :
    (l.rtake (k + 1)).rtake k = l.rtake k := by
  simp only [List.rtake, List.length_drop, List.drop_drop]
  congr 1
  omega

/-- Storing a hit in a buffer that holds the newest `limit` entries of a history
leaves the newest `limit` entries of the longer history. -/
theorem pushBack_rtake {α : Type} {limit : Nat} (h : 0 < limit) (history : List α) (hit : α) :
    pushBack limit (history.rtake limit) hit = (history ++ [hit]).rtake limit := by
  cases limit with
  | zero => exact absurd h (Nat.lt_irrefl 0)
  | succ k =>
      rw [pushBack, evict_eq_rtake h, List.rtake_concat_succ, Nat.add_sub_cancel,
        rtake_rtake_succ]

/-- `GET /hits` reads the newest entries, oldest first. -/
theorem getHits_eq_rtake {α : Type} (buffer : List α) (limit : Option Nat) :
    getHits buffer limit = buffer.rtake (limit.getD 100) :=
  (List.rtake_eq_reverse_take_reverse ..).symm

/-- Numbers below `2 ^ 64` are what their machine words say. -/
theorem map_toNat_range' {first n : Nat} (h : first + n ≤ 2 ^ 64) :
    ((List.range' first n).map UInt64.ofNat).map UInt64.toNat = List.range' first n := by
  rw [List.map_map]
  refine (List.map_congr_left fun k hk ↦ ?_).trans (List.map_id _)
  have hlt := List.mem_range'_1.mp hk
  exact UInt64.toNat_ofNat_of_lt' (show k < 2 ^ 64 by omega)

namespace Pipeline

variable {arch : Arch} {limit : Nat} {es : List Event} {s t : Pipeline} {e : Event}

/-! ## The invariant -/

/-- What the history of a run says about the state at its end. -/
structure Accounts (limit : Nat) (es : List Event) (s : Pipeline) : Prop where
  /-- Every accepted sample is numbered, with the worker, or queued, in this order. -/
  samples : acceptedSamples es =
    (numberedSamples es).map Prod.fst ++ s.worker.held.toList ++ s.queue
  /-- The counter of drops counts the drops. -/
  dropped : s.droppedSamples = UInt64.ofNat (countedDrops es).length
  /-- The counter of the factory counts the hits it made. -/
  counter : s.nextSeq = UInt64.ofNat (numberedSamples es).length
  /-- The `n`-th hit that was made has number `n`. -/
  seqs : (numberedSamples es).map (fun p ↦ p.2.seq) =
    (List.range' 1 (numberedSamples es).length).map UInt64.ofNat
  /-- A hit names the breakpoint of its sample. -/
  names : (numberedSamples es).map (fun p ↦ p.2.breakpointId) =
    (numberedSamples es).map fun p ↦ p.1.breakpointId
  /-- The hits that were made are past the buffer, or the last is with the worker. -/
  made : (numberedSamples es).map Prod.snd = pushedHits es ++ s.worker.unstored.toList
  /-- The buffer holds the newest hits. -/
  buffer : s.hitBuffer = (pushedHits es).rtake limit
  /-- The locked section is entered only when something can be stored. -/
  room : ∀ hit, s.worker = .locked hit → 0 < limit

theorem Accounts.initial (limit : Nat) : Accounts limit [] initial := by
  constructor <;> simp [acceptedSamples, numberedSamples, countedDrops, pushedHits,
    Pipeline.initial, Worker.held, Worker.unstored]

/-- A step that numbers nothing and takes no hit past the buffer. -/
theorem Accounts.frame (h : Accounts limit es s) (hnumbered : e.numberedSample = none)
    (hpushed : e.pushedHit = none) (hnextSeq : t.nextSeq = s.nextSeq)
    (hbuffer : t.hitBuffer = s.hitBuffer) (hunstored : t.worker.unstored = s.worker.unstored)
    (hsamples : acceptedSamples (es ++ [e]) =
      (numberedSamples es).map Prod.fst ++ t.worker.held.toList ++ t.queue)
    (hdropped : t.droppedSamples = UInt64.ofNat (countedDrops (es ++ [e])).length)
    (hroom : ∀ hit, t.worker = .locked hit → 0 < limit) : Accounts limit (es ++ [e]) t := by
  have hnumbers : numberedSamples (es ++ [e]) = numberedSamples es := by
    rw [numberedSamples_snoc, hnumbered, Option.toList_none, List.append_nil]
  have hhits : pushedHits (es ++ [e]) = pushedHits es := by
    rw [pushedHits_snoc, hpushed, Option.toList_none, List.append_nil]
  refine ⟨?_, hdropped, ?_, ?_, ?_, ?_, ?_, hroom⟩
  · rw [hnumbers, hsamples]
  · rw [hnumbers, hnextSeq, h.counter]
  · rw [hnumbers, h.seqs]
  · rw [hnumbers, h.names]
  · rw [hnumbers, hhits, hunstored, h.made]
  · rw [hhits, hbuffer, h.buffer]

/-- A hit is taken past the buffer. -/
theorem Accounts.push (h : Accounts limit es s) {hit : Hit} (hheld : s.worker.held = none)
    (hunstored : s.worker.unstored = some hit) (lock : Lock) {hitBuffer : List Hit}
    (hbuffer : hitBuffer = (pushedHits es ++ [hit]).rtake limit) :
    Accounts limit (es ++ [.pushed hit]) { s with lock, hitBuffer, worker := .stored hit } where
  samples := by
    have hsamples := h.samples
    rw [hheld] at hsamples
    simpa [Worker.held] using hsamples
  dropped := by simpa using h.dropped
  counter := by simpa using h.counter
  seqs := by simpa using h.seqs
  names := by simpa using h.names
  made := by
    have hmade := h.made
    rw [hunstored] at hmade
    simpa [Worker.unstored] using hmade
  buffer := by simpa using hbuffer
  room _ hlocked := by cases hlocked

/-- A sample is numbered. -/
theorem Accounts.number (h : Accounts limit es s) {sample : QueuedSample} {hit : Hit}
    (hw : s.worker = .received sample) (hseq : hit.seq = s.nextSeq + 1)
    (hname : hit.breakpointId = sample.breakpointId) :
    Accounts limit (es ++ [.numbered sample hit])
      { s with nextSeq := s.nextSeq + 1, worker := .numbered hit } where
  samples := by simpa [hw, Worker.held] using h.samples
  dropped := by simpa using h.dropped
  counter := by simp [h.counter]
  seqs := by simp [h.seqs, hseq, h.counter, List.range'_concat, Nat.add_comm 1]
  names := by simp [h.names, hname]
  made := by simpa [hw, Worker.unstored] using h.made
  buffer := by simpa using h.buffer
  room _ hlocked := by cases hlocked

/-- **Every step keeps the accounts.** -/
theorem Accounts.step (h : Accounts limit es s) (hs : Step arch limit s e t) :
    Accounts limit (es ++ [e]) t := by
  have hdropped := h.dropped
  cases hs with
  | accept =>
      exact h.frame rfl rfl rfl rfl rfl (by simp [h.samples]) (by simpa using hdropped) h.room
  | reject | tryLock | busy | hits =>
      exact h.frame rfl rfl rfl rfl rfl (by simpa using h.samples) (by simpa using hdropped) h.room
  | drop =>
      exact h.frame rfl rfl rfl rfl rfl (by simpa using h.samples) (by simp [hdropped]) h.room
  | receive hw hq =>
      refine h.frame rfl rfl rfl rfl (by rw [hw]; rfl) ?_ (by simpa using hdropped) ?_
      · simpa [hw, hq, Worker.held] using h.samples
      · intro hit hlocked
        cases hlocked
  | number hw hmake =>
      cases hmake
      exact h.number hw rfl rfl
  | lock hw hlimit =>
      refine h.frame rfl rfl rfl rfl (by rw [hw]; rfl) ?_ (by simpa using hdropped) ?_
      · simpa [hw, Worker.held] using h.samples
      · exact fun _ _ ↦ hlimit
  | @store hit hw =>
      refine h.push (by rw [hw]; rfl) (by rw [hw]; rfl) .free ?_
      rw [h.buffer, pushBack_rtake (h.room hit hw)]
  | skip hw hlimit =>
      refine h.push (by rw [hw]; rfl) (by rw [hw]; rfl) s.lock ?_
      rw [h.buffer, hlimit, List.rtake_zero, List.rtake_zero]
  | send hw =>
      refine h.frame rfl rfl rfl rfl (by rw [hw]; rfl) ?_ (by simpa using hdropped) ?_
      · simpa [hw, Worker.held] using h.samples
      · intro hit hlocked
        cases hlocked

/-- The accounts hold after every run. -/
theorem accounts (h : Run (Step arch limit) initial es s) : Accounts limit es s :=
  h.invariant (.initial limit) fun _ _ _ _ _ ih hs ↦ ih.step hs

/-- **No refusal is forgotten.**  The drop of a sample that was refused is counted, or its
callback is about to count it. -/
theorem count_rejectedIds (h : Run (Step arch limit) initial es s) (id : UInt64) :
    (rejectedIds es).count id =
      (countedDrops es).count id + if s.callback id = .rejected then 1 else 0 := by
  induction h with
  | nil => rfl
  | @snoc es s t e _ hstep ih =>
      cases hstep with
      | accept | receive | number | lock | store | skip | send | tryLock | busy | hits =>
          simpa using ih
      | @reject sample hidle =>
          by_cases hid : sample.breakpointId = id
          · subst hid
            simp [ih, hidle]
          · simp [ih, hid, Function.update_of_ne (Ne.symm hid)]
      | @drop dropped hrejected =>
          by_cases hid : dropped = id
          · subst hid
            simp [ih, hrejected]
          · simp [ih, hid, Function.update_of_ne (Ne.symm hid)]

/-! ## Reading the accounts -/

namespace Accounts

/-- No sample is lost or duplicated: the accepted ones are numbered, held or queued. -/
theorem length_accepted (h : Accounts limit es s) :
    (acceptedSamples es).length =
      (numberedSamples es).length + s.worker.held.toList.length + s.queue.length := by
  simp [h.samples, Nat.add_assoc]

/-- While the counter has not wrapped, the `n`-th hit carries the number `n`. -/
theorem seqs_toNat (h : Accounts limit es s) (hhits : (numberedSamples es).length < 2 ^ 64) :
    (numberedSamples es).map (fun p ↦ p.2.seq.toNat) =
      List.range' 1 (numberedSamples es).length := by
  calc (numberedSamples es).map (fun p ↦ p.2.seq.toNat)
      = ((numberedSamples es).map fun p ↦ p.2.seq).map UInt64.toNat := by simp
    _ = List.range' 1 (numberedSamples es).length := by
        rw [h.seqs]
        exact map_toNat_range' (by omega)

theorem length_pushed_le (h : Accounts limit es s) :
    (pushedHits es).length ≤ (numberedSamples es).length := by
  rw [← List.length_map (f := Prod.snd), h.made, List.length_append]
  exact Nat.le_add_right _ _

/-- The `n`-th hit that was pushed has number `n`. -/
theorem pushed_numbers (h : Accounts limit es s) :
    (pushedHits es).map (fun hit ↦ hit.seq) =
      (List.range' 1 (pushedHits es).length).map UInt64.ofNat := by
  have hmade : (pushedHits es ++ s.worker.unstored.toList).map (fun hit ↦ hit.seq) =
      (List.range' 1 (numberedSamples es).length).map UInt64.ofNat := by
    rw [← h.made, List.map_map, ← h.seqs]
    rfl
  have htake := congrArg (List.take (pushedHits es).length) hmade
  rwa [List.map_append, List.take_left' (List.length_map ..), ← List.map_take,
    List.take_range'_of_length_ge h.length_pushed_le] at htake

theorem pushed_seqs (h : Accounts limit es s) (hhits : (numberedSamples es).length < 2 ^ 64) :
    (pushedHits es).map (fun hit ↦ hit.seq.toNat) = List.range' 1 (pushedHits es).length := by
  have hpushed := h.length_pushed_le
  calc (pushedHits es).map (fun hit ↦ hit.seq.toNat)
      = ((pushedHits es).map fun hit ↦ hit.seq).map UInt64.toNat := by simp
    _ = List.range' 1 (pushedHits es).length := by
        rw [h.pushed_numbers]
        exact map_toNat_range' (by omega)

/-- The numbers in the buffer are consecutive. -/
theorem buffer_seqs (h : Accounts limit es s) (hhits : (numberedSamples es).length < 2 ^ 64) :
    s.hitBuffer.map (fun hit ↦ hit.seq.toNat) =
      List.range' (1 + ((pushedHits es).length - limit)) s.hitBuffer.length := by
  rw [h.buffer, List.rtake, List.map_drop, h.pushed_seqs hhits, List.drop_range',
    List.length_drop, Nat.mul_one]

theorem increasing (h : Accounts limit es s) (hhits : (numberedSamples es).length < 2 ^ 64) :
    (numberedSamples es).Pairwise fun p q ↦ p.2.seq < q.2.seq := by
  have hlt : ((numberedSamples es).map fun p ↦ p.2.seq.toNat).Pairwise (· < ·) := by
    rw [h.seqs_toNat hhits]
    exact List.pairwise_lt_range'
  exact (List.pairwise_map.mp hlt).imp UInt64.lt_iff_toNat_lt.mpr

/-- The numbered samples of a breakpoint are the first ones its watcher delivered. -/
theorem ofBreakpoint (h : Accounts limit es s) (id : UInt64) :
    ((numberedSamples es).filter fun p ↦ p.2.breakpointId = id).map Prod.fst <+:
      (acceptedSamples es).filter fun sample ↦ sample.breakpointId = id := by
  have hnames : ∀ p ∈ numberedSamples es, p.2.breakpointId = p.1.breakpointId :=
    List.map_inj_left.mp h.names
  have hfilter : ((numberedSamples es).filter fun p ↦ p.2.breakpointId = id) =
      (numberedSamples es).filter fun p ↦ p.1.breakpointId = id :=
    List.filter_congr fun p hp ↦ by rw [hnames p hp]
  rw [hfilter, h.samples, List.append_assoc, List.filter_append, List.filter_map]
  exact List.prefix_append _ _

end Accounts

/-- **Conservation and retention.**  After every run in which fewer than `2 ^ 64` hits were
numbered:

* every callback is accounted for, as a counted drop or as a sample that is
  numbered, held by the worker or queued, each in its place; and a refused sample
  whose drop is not counted has a callback that is about to count it;
* the buffer is the newest `limit` of the pushed hits, numbered consecutively;
* the hits of a breakpoint are numbered in the order its watcher delivered their
  samples;
* `GET /hits` answers with the newest entries of the buffer. -/
theorem conservation_and_retention (h : Run (Step arch limit) initial es s)
    (hhits : (numberedSamples es).length < 2 ^ 64) :
    (((countedDrops es).length < 2 ^ 64 →
        calls es = s.droppedSamples.toNat + s.queue.length + (numberedSamples es).length +
          s.worker.held.toList.length) ∧
      acceptedSamples es =
        (numberedSamples es).map Prod.fst ++ s.worker.held.toList ++ s.queue ∧
      ∀ id, (rejectedIds es).count id =
        (countedDrops es).count id + if s.callback id = .rejected then 1 else 0) ∧
    (s.hitBuffer = (pushedHits es).rtake limit ∧
      s.hitBuffer.length = min limit (pushedHits es).length ∧
      ∃ first, s.hitBuffer.map (fun hit ↦ hit.seq.toNat) =
        List.range' first s.hitBuffer.length) ∧
    (∀ id, ((numberedSamples es).filter fun p ↦ p.2.breakpointId = id).map Prod.fst <+:
        ((acceptedSamples es).filter fun sample ↦ sample.breakpointId = id) ∧
      ((numberedSamples es).filter fun p ↦ p.2.breakpointId = id).Pairwise
        fun p q ↦ p.2.seq < q.2.seq) ∧
    ∀ request k answer t, Step arch limit s (.hits request k answer) t →
      answer = s.hitBuffer.rtake (k.getD 100) ∧ t.hitBuffer = s.hitBuffer := by
  have acc := accounts h
  refine ⟨⟨fun hdrops ↦ ?_, acc.samples, count_rejectedIds h⟩,
    ⟨acc.buffer, ?_, _, acc.buffer_seqs hhits⟩, fun id ↦ ?_, ?_⟩
  · rw [acc.dropped, UInt64.toNat_ofNat_of_lt' hdrops, calls, acc.length_accepted]
    omega
  · rw [acc.buffer, List.rtake, List.length_drop]
    omega
  · exact ⟨acc.ofBreakpoint id, (acc.increasing hhits).filter _⟩
  · rintro request k answer t ⟨⟩
    exact ⟨getHits_eq_rtake _ _, rfl⟩

/-- A sample of breakpoint 7, with one register and no backtrace. -/
def oneSample : QueuedSample := ⟨7, 11, ⟨11, 12, [5], none, []⟩⟩

/-- The hit made of it first. -/
def oneHit : Hit := (Hit.makeHitWithMaps .aarch64 0 0 7 oneSample.data [none] none).1

/-- The sample is accepted, numbered and stored, and a reader takes the lock. -/
def oneRun : List Event :=
  [.accepted oneSample, .received oneSample, .numbered oneSample oneHit, .locked,
    .pushed oneHit, .sent oneHit, .tryLocked 0]

/-- The state after `oneRun`. -/
def oneState : Pipeline :=
  { initial with nextSeq := 1, lock := .reader 0, hitBuffer := [oneHit] }

theorem run_oneRun : Run (Step .aarch64 1) initial oneRun oneState :=
  .snoc (.snoc (.snoc (.snoc (.snoc (.snoc (.snoc .nil
    (.accept rfl (by decide))) (.receive rfl rfl)) (.number rfl rfl)) (.lock rfl (by decide) rfl))
    (.store rfl)) (.send rfl)) (.tryLock rfl)

theorem conservation_and_retention_oneRun :
    (numberedSamples oneRun).length < 2 ^ 64 ∧
      calls oneRun = oneState.droppedSamples.toNat + oneState.queue.length +
        (numberedSamples oneRun).length + oneState.worker.held.toList.length ∧
      oneState.hitBuffer = (pushedHits oneRun).rtake 1 ∧ oneState.hitBuffer.length = 1 := by
  have hhits : (numberedSamples oneRun).length < 2 ^ 64 := by decide
  obtain ⟨⟨hcount, -⟩, ⟨hbuffer, hlen, -⟩, -⟩ := conservation_and_retention run_oneRun hhits
  exact ⟨hhits, hcount (by decide), hbuffer, hlen⟩

end Pipeline

end Pwatch.Server
