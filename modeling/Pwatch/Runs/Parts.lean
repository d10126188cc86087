import Pwatch.Runs.Basic

/-!
# Systems with parts

A system may be put together of parts, each with a step relation of its own.  An event of
the system is an action of some of the parts at once, and the others stand still, so a run
of the system is a run of each part on the actions it takes.
-/

universe u v

namespace Pwatch

variable {σ τ : Type u} {ε δ : Type v}

/-- What an event does to a part: the part acts, or it has no action at the event and stands
still. -/
inductive Takes (step : σ → ε → σ → Prop) (s : σ) : Option ε → σ → Prop
  | idle : Takes step s none s
  | acts {e : ε} {t : σ} : step s e t → Takes step s (some e) t

namespace Takes

variable {step : σ → ε → σ → Prop} {s t : σ} {e : ε}

/-- A part without an action stands still. -/
theorem eq_of_none (h : Takes step s none t) : t = s := by
  cases h
  rfl

theorem of_some (h : Takes step s (some e) t) : step s e t := by
  cases h with
  | acts hstep => exact hstep

/-- A part whose action is allowed takes it under the guard. -/
theorem guarded {ok : σ → ε → Prop} {a : Option ε} (h : Takes step s a t) (ha : ∀ e ∈ a, ok s e) :
    Takes (Guarded step ok) s a t := by
  cases h with
  | idle => exact .idle
  | acts hstep => exact .acts ⟨ha _ rfl, hstep⟩

end Takes

/-- **A run of the system is a run of each part.** -/
theorem Run.part {step : σ → ε → σ → Prop} {part : τ → δ → τ → Prop} {proj : σ → τ}
    {action : ε → Option δ} {es : List ε} {s t : σ}
    (hstep : ∀ s e t, step s e t → Takes part (proj s) (action e) (proj t))
    (hrun : Run step s es t) : Run part (proj s) (es.filterMap action) (proj t) := by
  induction hrun with
  | nil => exact .nil
  | @snoc es t u e _ he ih =>
      rw [filterMap_snoc]
      have htakes := hstep t e u he
      generalize action e = a at htakes
      generalize proj u = u' at htakes
      cases htakes with
      | idle => simpa using ih
      | acts hpart => exact ih.snoc hpart

end Pwatch
