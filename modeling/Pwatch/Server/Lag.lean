import Pwatch.Server.Stream

/-!
# Clients that lag

The channel to the clients keeps 1024 hits, and `filter_map` of `stream_hits` drops the
error of a client that is further behind.  The client sees a gap in the numbers and nothing
else: what it gets stays in order and comes once, and a hit that it does not get was 1024
hits old (`stream_in_order`).
-/

namespace Pwatch.Server.HitServer

variable {ρ : Type} [DecidableEq ρ] {arch : Arch} {limit : Nat} {es : List (Event ρ)}
  {s : HitServer ρ} {r : ρ}

/-- The number of hits that were sent. -/
def sentCount (es : List (Event ρ)) : Nat := (Pipeline.sentHits (pipelineEvents es)).length

omit [DecidableEq ρ] in
/-- A client that lags in the channel lags in the server. -/
theorem exists_of_hitTxEvents_eq {before after : List (Broadcast.Event ρ Hit)}
    (h : hitTxEvents es = before ++ .lagged r :: after) :
    ∃ earlier later, es = earlier ++ .lagged r :: later ∧ hitTxEvents earlier = before := by
  obtain ⟨earlier, rest, rfl, hearlier, hrest⟩ := List.filterMap_eq_append_iff.mp h
  obtain ⟨between, e, later, rfl, hbetween, he, -⟩ := List.filterMap_eq_cons_iff.mp hrest
  have hlagged : e = .lagged r := by
    cases e with
    | pipeline pe => cases pe <;> simp at he
    | subscribed | received => simp at he
    | lagged r' =>
        obtain rfl := Broadcast.Event.lagged.inj (Option.some.inj he)
        rfl
  subst hlagged
  refine ⟨earlier ++ between, later, by simp, ?_⟩
  rw [hitTxEvents, List.filterMap_append, hearlier,
    List.filterMap_eq_nil_iff.mpr hbetween, List.append_nil]

/-- What the stream of a client has brought, when `first` hits were sent before it and it is
now behind `last` of them. -/
structure InOrder (s : HitServer ρ) (r : ρ) (before since : List (Event ρ)) (last : Nat)
    (numbers : List Nat) : Prop where
  position : s.hitTx.next r = some last
  le_sent : last ≤ s.hitTx.sent.length
  increasing : numbers.Pairwise (· < ·)
  bounds : ∀ k ∈ numbers, sentCount before < k ∧ k ≤ last
  /-- The stream has brought the hits with these numbers. -/
  hits : (Broadcast.receivedValues r (hitTxEvents since)).map some =
    numbers.map fun k ↦ s.hitTx.sent[k - 1]?
  seqs : (Broadcast.receivedValues r (hitTxEvents since)).map (fun hit ↦ hit.seq) =
    numbers.map UInt64.ofNat
  /-- Each other hit was skipped when 1024 newer ones had been sent. -/
  missed : ∀ k, sentCount before < k → k ≤ last → k ∉ numbers → ∃ earlier later,
    since = earlier ++ .lagged r :: later ∧
      k + hitTxCapacity ≤ sentCount (before ++ .subscribed r :: earlier)

/-- The hit at a position has the next number. -/
theorem seq_of_getElem? (hrun : Run (Step arch limit) .initial es s) {p : Nat} {hit : Hit}
    (h : s.hitTx.sent[p]? = some hit) : hit.seq = UInt64.ofNat (p + 1) := by
  obtain ⟨hlt, -⟩ := List.getElem?_eq_some_iff.mp h
  have hpushed := (Pipeline.accounts (run_pipeline hrun)).pushed_numbers
  have hget : (Pipeline.pushedHits (pipelineEvents es))[p]? = some hit := by
    rw [pushedHits_eq hrun, List.getElem?_append_left hlt, h]
  have hat := congrArg (·[p]?) hpushed
  simp only [List.getElem?_map, hget, Option.map_some] at hat
  have hlen := (List.getElem?_eq_some_iff.mp hget).1
  rw [List.getElem?_range' hlen, Option.map_some, Nat.one_mul, Nat.add_comm 1] at hat
  exact Option.some.inj hat

/-- Each stream is in order. -/
theorem exists_inOrder {before since : List (Event ρ)}
    (hrun : Run (Step arch limit) .initial (before ++ .subscribed r :: since) s) :
    ∃ last numbers, InOrder s r before since last numbers := by
  obtain ⟨t, u, ht, hsubscribe, hsince⟩ := hrun.split_event
  have hstart := hsubscribe.hitTx.of_some.next_subscribed
  have hsame : u.hitTx.sent.length = sentCount before := by
    rw [hsubscribe.hitTx.of_some.sent_subscribed, sent_eq ht, sentCount]
  obtain ⟨last, positions, h⟩ := Broadcast.exists_got (run_hitTx hsince) hstart le_rfl
  rw [hsame] at h
  have hseq : (Broadcast.receivedValues r (hitTxEvents since)).map (fun hit ↦ hit.seq) =
      (positions.map (· + 1)).map UInt64.ofNat := by
    have hvalues := congrArg (List.map (Option.map fun hit : Hit ↦ hit.seq)) h.values
    have hnumbers : positions.map (fun p ↦ (s.hitTx.sent[p]?).map fun hit ↦ hit.seq) =
        positions.map fun p ↦ some (UInt64.ofNat (p + 1)) := by
      refine List.map_congr_left fun p hp ↦ ?_
      have hlt := Nat.lt_of_lt_of_le (h.bounds p hp).2 h.le_sent
      have hget := List.getElem?_eq_getElem hlt
      rw [hget, Option.map_some, seq_of_getElem? hrun hget]
    simp only [List.map_map, Function.comp_def, Option.map_some] at hvalues
    rw [hnumbers] at hvalues
    refine List.map_injective_iff.mpr (Option.some_injective _) ?_
    simp only [List.map_map, Function.comp_def]
    exact hvalues
  refine ⟨last, positions.map (· + 1), {
    position := h.next_eq
    le_sent := h.le_sent
    increasing := List.pairwise_map.mpr (h.increasing.imp Nat.succ_lt_succ)
    bounds := fun k hk ↦ by
      obtain ⟨p, hp, rfl⟩ := List.mem_map.mp hk
      have hbounds := h.bounds p hp
      omega
    hits := by
      rw [h.values, List.map_map]
      rfl
    seqs := hseq
    missed := fun k hfirst hlast hnot ↦ ?_ }⟩
  have hp : k - 1 ∉ positions := fun hp ↦
    hnot (List.mem_map.mpr ⟨k - 1, hp, Nat.sub_add_cancel (Nat.one_le_of_lt hfirst)⟩)
  obtain ⟨b, a, heq, hskipped⟩ := h.missed (k - 1) (by omega) (by omega) hp
  obtain ⟨earlier, later, rfl, rfl⟩ := exists_of_hitTxEvents_eq heq
  refine ⟨earlier, later, rfl, ?_⟩
  rw [sentValues_hitTxEvents] at hskipped
  have hcount : sentCount (before ++ .subscribed r :: earlier) =
      sentCount before + (Pipeline.sentHits (pipelineEvents earlier)).length := by
    have hevents : pipelineEvents (before ++ .subscribed r :: earlier) =
        pipelineEvents before ++ pipelineEvents earlier := by
      rw [pipelineEvents, List.filterMap_append]
      rfl
    rw [sentCount, hevents, Pipeline.sentHits, List.filterMap_append, List.length_append]
    rfl
  omega

/-- The hits carry their numbers until the counter wraps. -/
theorem InOrder.toNat_seqs {before since : List (Event ρ)} {last : Nat}
    {numbers : List Nat} (h : InOrder s r before since last numbers)
    (hlt : s.hitTx.sent.length < 2 ^ 64) :
    (Broadcast.receivedValues r (hitTxEvents since)).map (fun hit ↦ hit.seq.toNat) =
      numbers := by
  have hnat := congrArg (List.map UInt64.toNat) h.seqs
  rw [List.map_map, List.map_map] at hnat
  refine hnat.trans ((List.map_congr_left fun k hk ↦ ?_).trans (List.map_id _))
  have hbound := (h.bounds k hk).2.trans h.le_sent
  exact UInt64.toNat_ofNat_of_lt' (Nat.lt_of_le_of_lt hbound hlt)

/-- **A stream is in order, whether it lags or not.**  The numbers of the hits it brings
increase; a number that is left out belongs to a hit that 1024 newer ones had pushed out.  As
long as the counter has not wrapped, the numbers are those in the hits. -/
theorem stream_in_order {before since : List (Event ρ)}
    (hrun : Run (Step arch limit) .initial (before ++ .subscribed r :: since) s) :
    ∃ last numbers, InOrder s r before since last numbers ∧
      (s.hitTx.sent.length < 2 ^ 64 →
        (Broadcast.receivedValues r (hitTxEvents since)).map (fun hit ↦ hit.seq.toNat) =
          numbers) := by
  obtain ⟨last, numbers, h⟩ := exists_inOrder hrun
  exact ⟨last, numbers, h, h.toNat_seqs⟩

/-- A client that is there when the only hit is sent gets it. -/
theorem exists_run_oneHit :
    ∃ (s : HitServer Unit) (since : List (Event Unit)),
      Run (Step .aarch64 1) .initial ([] ++ .subscribed () :: since) s ∧
        Broadcast.receivedValues () (hitTxEvents since) = [Pipeline.oneHit] := by
  let s₁ : HitServer Unit := ⟨.initial, ⟨[], Function.update (fun _ ↦ none) () (some 0)⟩⟩
  let s₂ : HitServer Unit := ⟨Pipeline.oneState, { s₁.hitTx with sent := [Pipeline.oneHit] }⟩
  let s₃ : HitServer Unit := { s₂ with hitTx := { s₂.hitTx with
    next := Function.update s₂.hitTx.next () (some 1) } }
  have hsubscribe : Step .aarch64 1 (.initial : HitServer Unit) (.subscribed ()) s₁ :=
    step_subscribed rfl
  have hone : Run (Step .aarch64 1) s₁ (Pipeline.oneRun.map .pipeline) s₂ :=
    run_of_pipeline Pipeline.run_oneRun
  have hreceive : Step .aarch64 1 s₂ (.received () Pipeline.oneHit) s₃ :=
    ⟨.idle, .acts (.receive rfl (by decide) rfl)⟩
  exact ⟨s₃, _, (hone.snoc hreceive).cons hsubscribe, rfl⟩

/-- A client that gets the only hit. -/
theorem stream_in_order_oneHit :
    ∃ (s : HitServer Unit) (since : List (Event Unit)) (last : Nat) (numbers : List Nat),
      Run (Step .aarch64 1) .initial (.subscribed () :: since) s ∧
        Broadcast.receivedValues () (hitTxEvents since) = [Pipeline.oneHit] ∧
        InOrder s () [] since last numbers := by
  obtain ⟨s, since, hrun, hreceived⟩ := exists_run_oneHit
  obtain ⟨last, numbers, h, -⟩ := stream_in_order hrun
  exact ⟨s, since, last, numbers, hrun, hreceived, h⟩

end Pwatch.Server.HitServer
