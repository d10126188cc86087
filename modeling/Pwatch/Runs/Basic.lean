import Mathlib.Data.List.Basic

/-!
# Runs of a labelled step relation

A system is a relation `step s e t` ("in `s` the event `e` may happen, and then
the state is `t`").  `Run step s es t` is the set of its finite executions: `es`
is the list of events in the order in which they happened.  Keeping the events
next to the states lets an invariant speak about the history (how many messages
were sent, which call read last) without any ghost field in the state.

Nothing here knows which system is being run.
-/

universe u v

namespace Pwatch

variable {σ : Type u} {ε : Type v}

/-- `Run step s es t`: from `s` the events `es` can happen in this order, and the
system is then in `t`. -/
inductive Run (step : σ → ε → σ → Prop) (s : σ) : List ε → σ → Prop
  | /-- Nothing has happened yet. -/
    nil : Run step s [] s
  | /-- One more event at the end of a run. -/
    snoc {es : List ε} {t u : σ} {e : ε} :
      Run step s es t → step t e u → Run step s (es ++ [e]) u

/-- What one more event adds to a part of the history. -/
theorem filterMap_snoc {α : Type*} (f : ε → Option α) (es : List ε) (e : ε) :
    (es ++ [e]).filterMap f = es.filterMap f ++ (f e).toList := by
  rw [List.filterMap_append]
  cases h : f e <;> simp [h]

/-- The last of the events that are `mine`. -/
def LastOf (mine : ε → Prop) (es : List ε) (e : ε) : Prop :=
  ∃ before after, es = before ++ e :: after ∧ ∀ e' ∈ after, ¬ mine e'

theorem LastOf.self (mine : ε → Prop) (es : List ε) (e : ε) : LastOf mine (es ++ [e]) e :=
  ⟨es, [], rfl, by simp⟩

/-- Events of others do not change which of mine was the last. -/
theorem LastOf.snoc {mine : ε → Prop} {es : List ε} {e e' : ε} (h : LastOf mine es e)
    (he' : ¬ mine e') : LastOf mine (es ++ [e']) e := by
  obtain ⟨before, after, rfl, hafter⟩ := h
  refine ⟨before, after ++ [e'], by simp, fun d hd ↦ ?_⟩
  rcases List.mem_append.mp hd with hd | hd
  · exact hafter d hd
  · rwa [List.mem_singleton.mp hd]

/-- `Guarded step ok` allows the steps of `step` whose event is `ok` in the state
it happens in. -/
def Guarded (step : σ → ε → σ → Prop) (ok : σ → ε → Prop) (s : σ) (e : ε) (t : σ) : Prop :=
  ok s e ∧ step s e t

namespace Run

variable {step : σ → ε → σ → Prop} {s t u : σ} {es fs : List ε} {e : ε}

/-- A single step is a run. -/
theorem single (h : step s e t) : Run step s [e] t := by
  simpa using snoc (.nil : Run step s [] s) h

/-- A step in front of a run. -/
theorem cons (h : step s e t) (hr : Run step t es u) : Run step s (e :: es) u := by
  induction hr with
  | nil => exact single h
  | snoc _ hstep ih => exact snoc ih hstep

/-- Runs compose. -/
theorem append (h₁ : Run step s es t) (h₂ : Run step t fs u) : Run step s (es ++ fs) u := by
  induction h₂ with
  | nil => simpa using h₁
  | snoc _ hstep ih => rw [← List.append_assoc]; exact snoc ih hstep

/-- **The invariant rule.**  A property of history and state that holds before
anything happens and is kept by every step of every run holds at the end of
every run. -/
theorem invariant {Inv : List ε → σ → Prop} (h : Run step s es t) (h₀ : Inv [] s)
    (hstep : ∀ es t e u, Run step s es t → Inv es t → step t e u → Inv (es ++ [e]) u) :
    Inv es t := by
  induction h with
  | nil => exact h₀
  | snoc hr he ih => exact hstep _ _ _ _ hr ih he

/-- A run whose history is split is split in the middle state. -/
theorem split (h : Run step s (es ++ fs) u) : ∃ t, Run step s es t ∧ Run step t fs u := by
  generalize hl : es ++ fs = l at h
  induction h generalizing fs with
  | nil =>
      obtain ⟨rfl, rfl⟩ := List.append_eq_nil_iff.mp hl
      exact ⟨s, .nil, .nil⟩
  | @snoc ls t u e hr he ih =>
      rcases List.eq_nil_or_concat fs with rfl | ⟨gs, f, rfl⟩
      · rw [List.append_nil] at hl
        exact ⟨u, hl ▸ snoc hr he, .nil⟩
      · rw [List.concat_eq_append, ← List.append_assoc] at hl
        obtain ⟨rfl, hf⟩ := List.append_inj' hl rfl
        cases hf
        obtain ⟨m, hm, hgs⟩ := ih rfl
        exact ⟨m, hm, by simpa using snoc hgs he⟩

/-- The last event of a history happened as the last step. -/
theorem snoc_inv (h : Run step s (es ++ [e]) u) : ∃ t, Run step s es t ∧ step t e u := by
  generalize hl : es ++ [e] = l at h
  cases h with
  | nil => simp at hl
  | snoc hr he =>
      obtain ⟨rfl, hf⟩ := List.append_inj' hl rfl
      cases hf
      exact ⟨_, hr, he⟩

/-- The event in the middle of a history happened as a step. -/
theorem split_event (h : Run step s (es ++ e :: fs) u) :
    ∃ t t', Run step s es t ∧ step t e t' ∧ Run step t' fs u := by
  rw [List.append_cons] at h
  obtain ⟨t', ht', hfs⟩ := h.split
  obtain ⟨t, ht, he⟩ := ht'.snoc_inv
  exact ⟨t, t', ht, he, hfs⟩

/-- A run of a system is a run of every system that allows its steps. -/
theorem mono {step' : σ → ε → σ → Prop} (hsub : ∀ s e t, step s e t → step' s e t)
    (h : Run step s es t) : Run step' s es t := by
  induction h with
  | nil => exact .nil
  | snoc _ he ih => exact snoc ih (hsub _ _ _ he)

/-- A run is guarded when its events are allowed in every state. -/
theorem guarded {ok : σ → ε → Prop} (h : Run step s es t) (hok : ∀ e ∈ es, ∀ s, ok s e) :
    Run (Guarded step ok) s es t := by
  induction h with
  | nil => exact .nil
  | @snoc es t u e _ he ih =>
      have hes : ∀ e ∈ es, ∀ s, ok s e := fun e hmem ↦ hok e (List.mem_append_left _ hmem)
      exact snoc (ih hes) ⟨hok e (by simp) t, he⟩

/-- A guarded run is a run. -/
theorem of_guarded {ok : σ → ε → Prop} (h : Run (Guarded step ok) s es t) :
    Run step s es t :=
  h.mono fun _ _ _ hg ↦ hg.2

end Run

end Pwatch
