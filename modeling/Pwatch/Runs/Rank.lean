import Pwatch.Runs.Basic

/-!
# Runs that come to an end

When every step that is taken from a good state leads to a good state of lower rank, a run
can be no longer than the rank of the state it starts in.
-/

universe u v

namespace Pwatch.Run

variable {σ : Type u} {ε : Type v} {step : σ → ε → σ → Prop} {s t : σ} {es : List ε}

/-- **The rank rule.** -/
theorem length_add_rank_le (Good : σ → Prop) (rank : σ → Nat) (hrun : Run step s es t)
    (hgood : Good s)
    (hstep : ∀ s e t, Good s → step s e t → Good t ∧ rank t < rank s) :
    Good t ∧ es.length + rank t ≤ rank s := by
  induction hrun with
  | nil => exact ⟨hgood, by simp⟩
  | @snoc es t u e _ he ih =>
      obtain ⟨ht, hle⟩ := ih
      obtain ⟨hu, hlt⟩ := hstep t e u ht he
      refine ⟨hu, ?_⟩
      rw [List.length_append, List.length_singleton]
      omega

end Pwatch.Run
