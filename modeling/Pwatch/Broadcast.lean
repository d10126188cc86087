import Mathlib.Logic.Function.Basic
import Pwatch.Runs.Basic

/-!
# Broadcast channels

A channel with one order of values and any number of receivers.  A receiver gets the values
that are sent after it has subscribed, in their order; the channel keeps the newest
`capacity` of them, and a receiver that is further behind skips what it has missed.

Nothing here depends on what is sent, or on who receives it.
-/

universe u v

namespace Pwatch.Broadcast

variable {ρ : Type u} {α : Type v}

/-- The values that were sent, and for each receiver how many of them are behind it. -/
structure Channel (ρ : Type u) (α : Type v) where
  sent : List α
  next : ρ → Option Nat

/-- A channel without receivers. -/
def Channel.empty : Channel ρ α where
  sent := []
  next := fun _ ↦ none

/-- The values a receiver has not got yet. -/
def Channel.pending (c : Channel ρ α) (r : ρ) : List α :=
  (c.next r).elim [] c.sent.drop

inductive Event (ρ : Type u) (α : Type v)
  | subscribed (r : ρ)
  | sent (value : α)
  | received (r : ρ) (value : α)
  | /-- A receiver skips the values that are no longer kept. -/
    lagged (r : ρ)

variable [DecidableEq ρ] (capacity : Nat)

/-- One action of the sender or of a receiver. -/
inductive Step : Channel ρ α → Event ρ α → Channel ρ α → Prop
  | subscribe {c : Channel ρ α} {r : ρ} :
      c.next r = none →
      Step c (.subscribed r) { c with next := Function.update c.next r (some c.sent.length) }
  | send {c : Channel ρ α} {value : α} :
      Step c (.sent value) { c with sent := c.sent ++ [value] }
  | receive {c : Channel ρ α} {r : ρ} {n : Nat} {value : α} :
      c.next r = some n → c.sent.length ≤ n + capacity → c.sent[n]? = some value →
      Step c (.received r value) { c with next := Function.update c.next r (some (n + 1)) }
  | lag {c : Channel ρ α} {r : ρ} {n : Nat} :
      c.next r = some n → ¬ c.sent.length ≤ n + capacity →
      Step c (.lagged r)
        { c with next := Function.update c.next r (some (c.sent.length - capacity)) }

/-! ## What a history says -/

namespace Event

/-- The value sent at an event. -/
@[simp] def sentValue : Event ρ α → Option α
  | .sent value => some value
  | _ => none

/-- The value that a receiver gets at an event. -/
@[simp] def receivedValue (r : ρ) : Event ρ α → Option α
  | .received r' value => if r' = r then some value else none
  | _ => none

/-- The receiver that acts at an event. -/
@[simp] def receiver : Event ρ α → Option ρ
  | .sent _ => none
  | .subscribed r | .received r _ | .lagged r => some r

end Event

/-- The values that were sent, in order. -/
def sentValues (es : List (Event ρ α)) : List α := es.filterMap Event.sentValue

/-- The values that a receiver got, in order. -/
def receivedValues (r : ρ) (es : List (Event ρ α)) : List α :=
  es.filterMap (Event.receivedValue r)

variable {capacity} {c d : Channel ρ α} {e : Event ρ α} {es : List (Event ρ α)} {r : ρ} {n : Nat}

theorem Step.sent_eq (h : Step capacity c e d) : d.sent = c.sent ++ e.sentValue.toList := by
  cases h with
  | send => rfl
  | subscribe | receive | lag => exact (List.append_nil _).symm

/-- The channel has what was sent. -/
theorem sent_eq (hrun : Run (Step capacity) c es d) : d.sent = c.sent ++ sentValues es := by
  induction hrun with
  | nil => exact (List.append_nil _).symm
  | snoc _ hstep ih =>
      rw [hstep.sent_eq, ih, sentValues, sentValues, filterMap_snoc, List.append_assoc]

/-- Only the receiver that acts gets on. -/
theorem Step.next_eq (h : Step capacity c e d) (hr : e.receiver ≠ some r) :
    d.next r = c.next r := by
  have hne : ∀ {r'}, some r' ≠ some r → r ≠ r' := fun hr' heq ↦ hr' (congrArg some heq.symm)
  cases h with
  | send => rfl
  | subscribe | receive | lag => exact Function.update_of_ne (hne hr) ..

/-- A new receiver has all values behind it. -/
theorem Step.next_subscribed (h : Step capacity c (.subscribed r) d) :
    d.next r = some d.sent.length := by
  cases h
  exact Function.update_self ..

/-- A receiver gets the next value. -/
theorem Step.next_received {value : α} (h : Step capacity c (.received r value) d) :
    ∃ n, c.next r = some n ∧ c.sent[n]? = some value ∧ d.next r = some (n + 1) := by
  cases h with
  | receive hn _ hvalue => exact ⟨_, hn, hvalue, Function.update_self ..⟩

/-- What a step does to a receiver that is subscribed and does not lag. -/
theorem Step.next_cases (h : Step capacity c e d) (hn : c.next r = some n) (hlag : e ≠ .lagged r) :
    (d.next r = some n ∧ e.receivedValue r = none) ∨
      ∃ value, c.sent[n]? = some value ∧ d.sent = c.sent ∧ d.next r = some (n + 1) ∧
        e.receivedValue r = some value := by
  have hother : ∀ {r' : ρ} {m : Option Nat}, r' ≠ r → Function.update c.next r' m r = some n :=
    fun hne ↦ (Function.update_of_ne (Ne.symm hne) ..).trans hn
  cases h with
  | @subscribe r' hnone =>
      refine .inl ⟨hother ?_, rfl⟩
      rintro rfl
      rw [hn] at hnone
      cases hnone
  | send => exact .inl ⟨hn, rfl⟩
  | @receive r' m value hm _ hvalue =>
      by_cases hr : r' = r
      · subst hr
        obtain rfl := Option.some.inj (hn.symm.trans hm)
        exact .inr ⟨value, hvalue, rfl, Function.update_self .., if_pos rfl⟩
      · exact .inl ⟨hother hr, if_neg hr⟩
  | @lag r' _ _ _ =>
      refine .inl ⟨hother ?_, rfl⟩
      rintro rfl
      exact hlag rfl

/-- **A receiver that does not lag** has got the values between its first position and its
present one, each once and in order. -/
theorem received_eq (hrun : Run (Step capacity) c es d) {start : Nat}
    (hstart : c.next r = some start) (hle : start ≤ c.sent.length)
    (hlag : ∀ e ∈ es, e ≠ .lagged r) :
    ∃ n, d.next r = some n ∧ start ≤ n ∧ n ≤ d.sent.length ∧
      receivedValues r es = (d.sent.take n).drop start := by
  induction hrun with
  | nil => exact ⟨start, hstart, Nat.le_refl _, hle, by simp [receivedValues]⟩
  | @snoc es d d' e _ hstep ih =>
      obtain ⟨n, hn, hstart_le, hle_sent, hreceived⟩ :=
        ih fun e he ↦ hlag e (List.mem_append_left _ he)
      have hsent : d.sent <+: d'.sent := ⟨_, hstep.sent_eq.symm⟩
      rw [receivedValues, filterMap_snoc, ← receivedValues, hreceived]
      rcases hstep.next_cases hn (hlag e (by simp)) with ⟨hnext, hvalue⟩ |
        ⟨value, hvalue, hsame, hnext, hgot⟩
      · refine ⟨n, hnext, hstart_le, Nat.le_trans hle_sent hsent.length_le, ?_⟩
        rw [hvalue, Option.toList_none, List.append_nil, hstep.sent_eq,
          List.take_append_of_le_length hle_sent]
      · obtain ⟨hlt, hget⟩ := List.getElem?_eq_some_iff.mp hvalue
        refine ⟨n + 1, hnext, by omega, by rw [hsame]; omega, ?_⟩
        have hlen : start ≤ (d.sent.take n).length := by rw [List.length_take]; omega
        rw [hgot, hsame, List.take_add_one, hvalue, List.drop_append_of_le_length hlen]

/-- What it has got and what is pending is all that was sent since its first position. -/
theorem received_append_pending (hrun : Run (Step capacity) c es d) {start : Nat}
    (hstart : c.next r = some start) (hle : start ≤ c.sent.length)
    (hlag : ∀ e ∈ es, e ≠ .lagged r) :
    receivedValues r es ++ d.pending r = d.sent.drop start := by
  obtain ⟨n, hn, hstart_le, hle_sent, hreceived⟩ := received_eq hrun hstart hle hlag
  have hlen : start ≤ (d.sent.take n).length := by rw [List.length_take]; omega
  rw [Channel.pending, hn, hreceived, Option.elim_some, ← List.drop_append_of_le_length hlen,
    List.take_append_drop]

theorem Step.sent_subscribed (h : Step capacity c (.subscribed r) d) : d.sent = c.sent := by
  cases h
  rfl

/-! ## What is pending -/

/-- A value that is sent is pending for each receiver at most once. -/
theorem Step.length_pending_sent {value : α} (h : Step capacity c (.sent value) d) :
    (d.pending r).length ≤ (c.pending r).length + 1 := by
  cases h with
  | send =>
      rw [Channel.pending, Channel.pending]
      cases c.next r with
      | none => simp
      | some n =>
          simp only [Option.elim_some, List.length_drop, List.length_append, List.length_singleton]
          omega

/-- A receiver that acts has less before it. -/
theorem Step.length_pending_lt (h : Step capacity c e d) (hr : e.receiver = some r)
    (hsubscribed : ∀ r', e ≠ .subscribed r') : (d.pending r).length < (c.pending r).length := by
  cases h with
  | subscribe => exact absurd rfl (hsubscribed _)
  | send => cases hr
  | receive hn _ hvalue =>
      obtain rfl := Option.some.inj hr
      have hlt := (List.getElem?_eq_some_iff.mp hvalue).1
      simp only [Channel.pending, hn, Function.update_self, Option.elim_some, List.length_drop]
      omega
  | lag hn hbehind =>
      obtain rfl := Option.some.inj hr
      simp only [Channel.pending, hn, Function.update_self, Option.elim_some, List.length_drop]
      omega

variable (capacity) in
/-- A receiver with something before it can act. -/
theorem exists_step_of_pending (h : c.pending r ≠ []) :
    ∃ d, (∃ value, Step capacity c (.received r value) d) ∨ Step capacity c (.lagged r) d := by
  rw [Channel.pending] at h
  cases hn : c.next r with
  | none => exact absurd (by rw [hn]; rfl) h
  | some n =>
      rw [hn, Option.elim_some, ne_eq, List.drop_eq_nil_iff, Nat.not_le] at h
      by_cases hkept : c.sent.length ≤ n + capacity
      · exact ⟨_, .inl ⟨_, .receive hn hkept (List.getElem?_eq_getElem h)⟩⟩
      · exact ⟨_, .inr (.lag hn hkept)⟩

/-! ## Receivers that lag -/

/-- A receiver that lags goes on with the oldest value that is kept. -/
theorem Step.next_lagged (h : Step capacity c (.lagged r) d) :
    ∃ n, c.next r = some n ∧ n + capacity < c.sent.length ∧ d.sent = c.sent ∧
      d.next r = some (c.sent.length - capacity) := by
  cases h with
  | lag hn hbehind => exact ⟨_, hn, Nat.not_le.mp hbehind, rfl, Function.update_self ..⟩

variable (capacity) in
/-- The value at a position was skipped when more than `capacity` newer ones had been sent,
counted with the `sent` values in front of the history. -/
def Skipped (sent : Nat) (r : ρ) (es : List (Event ρ α)) (p : Nat) : Prop :=
  ∃ before after, es = before ++ .lagged r :: after ∧
    p + capacity < sent + (sentValues before).length

omit [DecidableEq ρ] in
theorem Skipped.snoc {sent p : Nat} (h : Skipped capacity sent r es p) (e : Event ρ α) :
    Skipped capacity sent r (es ++ [e]) p := by
  obtain ⟨before, after, rfl, hlt⟩ := h
  exact ⟨before, after ++ [e], by simp, hlt⟩

variable (capacity) in
/-- What a receiver that started at a position has got: the values at these positions. -/
structure Got (sent start : Nat) (r : ρ) (es : List (Event ρ α)) (d : Channel ρ α) (n : Nat)
    (positions : List Nat) : Prop where
  next_eq : d.next r = some n
  start_le : start ≤ n
  le_sent : n ≤ d.sent.length
  increasing : positions.Pairwise (· < ·)
  bounds : ∀ p ∈ positions, start ≤ p ∧ p < n
  values : (receivedValues r es).map some = positions.map (d.sent[·]?)
  missed : ∀ p, start ≤ p → p < n → p ∉ positions → Skipped capacity sent r es p

/-- The values at positions that are behind a receiver stay what they are. -/
theorem Got.values_append {sent start : Nat} {positions : List Nat} {more : List α}
    (h : Got capacity sent start r es d n positions) :
    positions.map ((d.sent ++ more)[·]?) = positions.map (d.sent[·]?) :=
  List.map_congr_left fun p hp ↦
    List.getElem?_append_left (Nat.lt_of_lt_of_le (h.bounds p hp).2 h.le_sent)

/-- **What a receiver gets** is in order, nothing is got twice, and a value that it does not
get was skipped when it was no longer kept. -/
theorem exists_got (hrun : Run (Step capacity) c es d) {start : Nat}
    (hstart : c.next r = some start) (hle : start ≤ c.sent.length) :
    ∃ n positions, Got capacity c.sent.length start r es d n positions := by
  induction hrun with
  | nil =>
      exact ⟨start, [], hstart, Nat.le_refl _, hle, .nil, by simp, by simp [receivedValues],
        fun p hp hlt ↦ absurd hlt (Nat.not_lt.mpr hp)⟩
  | @snoc es d d' e hes hstep ih =>
      obtain ⟨n, positions, h⟩ := ih
      have hsent := hstep.sent_eq
      have hvalues : receivedValues r (es ++ [e]) =
          receivedValues r es ++ (e.receivedValue r).toList := filterMap_snoc _ _ _
      have hmissed : ∀ p, start ≤ p → p < n → p ∉ positions →
          Skipped capacity c.sent.length r (es ++ [e]) p := fun p hp hlt hnot ↦
        (h.missed p hp hlt hnot).snoc e
      by_cases hlag : e = .lagged r
      · subst hlag
        obtain ⟨m, hm, hbehind, hsame, hnext⟩ := hstep.next_lagged
        obtain rfl := Option.some.inj (h.next_eq.symm.trans hm)
        refine ⟨_, positions, hnext, by have := h.start_le; omega, by rw [hsame]; omega,
          h.increasing, fun p hp ↦ ?_, ?_, fun p hp hlt hnot ↦ ?_⟩
        · have hbounds := h.bounds p hp
          omega
        · rw [hvalues, hsame]
          simpa using h.values
        · -- what was sent until now is what was sent first and what the history sent
          by_cases hpn : p < n
          · exact hmissed p hp hpn hnot
          · refine ⟨es, [], rfl, ?_⟩
            have hlength := congrArg List.length (sent_eq hes)
            rw [List.length_append] at hlength
            omega
      · rcases hstep.next_cases h.next_eq hlag with ⟨hnext, hvalue⟩ |
          ⟨value, hvalue, hsame, hnext, hgot⟩
        · refine ⟨n, positions, hnext, h.start_le, ?_, h.increasing, h.bounds, ?_, hmissed⟩
          · rw [hsent, List.length_append]
            exact Nat.le_add_right_of_le h.le_sent
          · rw [hvalues, hvalue, Option.toList_none, List.append_nil, hsent, h.values_append,
              h.values]
        · obtain ⟨hlt, -⟩ := List.getElem?_eq_some_iff.mp hvalue
          refine ⟨n + 1, positions ++ [n], hnext, Nat.le_succ_of_le h.start_le,
            by rw [hsame]; omega, ?_, fun p hp ↦ ?_, ?_, fun p hp hltp hnot ↦ ?_⟩
          · refine List.pairwise_append.mpr ⟨h.increasing, by simp, fun p hp q hq ↦ ?_⟩
            rw [List.mem_singleton.mp hq]
            exact (h.bounds p hp).2
          · rcases List.mem_append.mp hp with hp | hp
            · have hbounds := h.bounds p hp
              omega
            · have hstart_le := h.start_le
              rw [List.mem_singleton.mp hp]
              omega
          · rw [hvalues, hgot, hsame]
            simp [h.values, hvalue]
          · rw [List.mem_append, List.mem_singleton, not_or] at hnot
            exact hmissed p hp (by omega) hnot.1

end Pwatch.Broadcast
