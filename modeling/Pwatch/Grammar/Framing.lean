import Mathlib.Data.List.Chain
import Mathlib.Data.List.Infix

/-!
# Framing

A stream is cut into frames by a separator: a frame ends where the separator first occurs
in what is left, and what has no separator yet is the unfinished tail.  `Framed` says so
about the whole stream.  A reader that gets the stream in pieces may cut what it has so far
and go on with the tail (`Framed.append`): a first occurrence stays the first when more
text comes.
-/

universe u

namespace Pwatch.Grammar

variable {α : Type u}

/-! ## First occurrences -/

/-- The separator occurs in `s` between `f` and `rest`, and nowhere before that. -/
structure First (sep f rest s : List α) : Prop where
  eq : s = f ++ (sep ++ rest)
  le : ∀ g r, s = g ++ (sep ++ r) → f.length ≤ g.length

/-- The separator does not occur. -/
def Absent (sep s : List α) : Prop := ∀ g r, s ≠ g ++ (sep ++ r)

variable {sep f f' rest rest' s t tail tail' : List α} {fs gs : List (List α)}

/-- There is one first occurrence. -/
theorem First.unique (h : First sep f rest s) (h' : First sep f' rest' s) :
    f = f' ∧ rest = rest' := by
  have hlen : f.length = f'.length := Nat.le_antisymm (h.le f' rest' h'.eq) (h'.le f rest h.eq)
  obtain ⟨rfl, hrest⟩ := List.append_inj (h.eq.symm.trans h'.eq) hlen
  exact ⟨rfl, List.append_cancel_left hrest⟩

theorem First.not_absent (h : First sep f rest s) : ¬ Absent sep s := fun hno ↦ hno f rest h.eq

/-- A separator of two letters is absent when no two neighbours are these. -/
theorem absent_pair {a b : α} (h : s.IsChain fun c d ↦ c ≠ a ∨ d ≠ b) : Absent [a, b] s := by
  intro g r heq
  rcases List.isChain_iff_forall_rel_of_append_cons_cons.mp h heq with hne | hne
  · exact hne rfl
  · exact hne rfl

/-- An occurrence that ends in the front part of a text is one in the front part. -/
theorem occurs_of_length_le {g r : List α} (h : s ++ t = g ++ (sep ++ r))
    (hlen : (g ++ sep).length ≤ s.length) : ∃ r', s = g ++ (sep ++ r') := by
  have hpre : g ++ sep <+: s ++ t := ⟨r, by rw [h, List.append_assoc]⟩
  obtain ⟨r', hr'⟩ := List.prefix_of_prefix_length_le hpre (List.prefix_append s t) hlen
  exact ⟨r', by rw [← hr', List.append_assoc]⟩

/-- **A first occurrence stays the first** when more comes. -/
theorem First.append (h : First sep f rest s) (t : List α) : First sep f (rest ++ t) (s ++ t) where
  eq := by rw [h.eq]; simp only [List.append_assoc]
  le g r hg := by
    by_contra hlt
    -- an earlier occurrence would end inside `s`
    have hlen : (g ++ sep).length ≤ s.length := by
      rw [h.eq]
      simp only [List.length_append]
      omega
    obtain ⟨r', hr'⟩ := occurs_of_length_le hg hlen
    exact hlt (h.le g r' hr')

/-- A separator is the first one when no other ends before it does. -/
theorem First.of_absent (h : Absent sep (f ++ sep.dropLast)) (rest : List α) :
    First sep f rest (f ++ (sep ++ rest)) where
  eq := rfl
  le g r hg := by
    by_contra hlt
    obtain ⟨u, hu⟩ := List.dropLast_prefix sep
    have hsplit : f ++ (sep ++ rest) = f ++ sep.dropLast ++ (u ++ rest) := by
      conv_lhs => rw [← hu]
      simp only [List.append_assoc]
    have hlen : (g ++ sep).length ≤ (f ++ sep.dropLast).length := by
      simp only [List.length_append, List.length_dropLast]
      omega
    obtain ⟨r', hr'⟩ := occurs_of_length_le (hsplit.symm.trans hg) hlen
    exact h g r' hr'

section

variable [DecidableEq α]

/-- The position of the first occurrence. -/
def indexOf (sep : List α) : List α → Option Nat
  | [] => if sep = [] then some 0 else none
  | c :: s => if sep <+: c :: s then some 0 else (indexOf sep s).map (· + 1)

theorem indexOf_eq_none (h : indexOf sep s = none) : Absent sep s := by
  induction s with
  | nil =>
      intro g r heq
      obtain ⟨-, hnil⟩ := List.append_eq_nil_iff.mp heq.symm
      simp [indexOf, (List.append_eq_nil_iff.mp hnil).1] at h
  | cons c s ih =>
      rw [indexOf] at h
      split at h
      · cases h
      · rename_i hpre
        intro g r heq
        cases g with
        | nil => exact hpre ⟨r, heq.symm⟩
        | cons d g =>
            obtain ⟨rfl, htail⟩ := List.cons.inj heq
            exact ih (by simpa using h) g r htail

/-- Where the separator first occurs the text is cut. -/
theorem indexOf_eq_some {i : Nat} (h : indexOf sep s = some i) :
    First sep (s.take i) (s.drop (i + sep.length)) s := by
  induction s generalizing i with
  | nil =>
      rw [indexOf] at h
      split at h
      · rename_i hnil
        subst hnil
        exact ⟨by simp, fun _ _ _ ↦ by simp⟩
      · cases h
  | cons c s ih =>
      rw [indexOf] at h
      split at h
      · rename_i hpre
        obtain ⟨r, hr⟩ := hpre
        obtain rfl := Option.some.inj h
        refine ⟨?_, fun _ _ _ ↦ by simp⟩
        rw [← hr, Nat.zero_add, List.drop_left, List.take_zero, List.nil_append]
      · rename_i hpre
        obtain ⟨j, hj, rfl⟩ := Option.map_eq_some_iff.mp h
        have hfirst := ih hj
        rw [Nat.add_right_comm, List.take_succ_cons, List.drop_succ_cons]
        refine ⟨?_, fun g r heq ↦ ?_⟩
        · rw [List.cons_append, ← hfirst.eq]
        · cases g with
          | nil => exact absurd ⟨r, heq.symm⟩ hpre
          | cons d g =>
              obtain ⟨rfl, htail⟩ := List.cons.inj heq
              exact Nat.succ_le_succ (hfirst.le g r htail)

end

/-! ## Frames -/

/-- The text is the frames, each ended by the first separator in what is left, and the
unfinished tail. -/
inductive Framed (sep : List α) : List α → List (List α) → List α → Prop
  | tail {s : List α} : Absent sep s → Framed sep s [] s
  | frame {f rest s tail : List α} {fs : List (List α)} :
      First sep f rest s → Framed sep rest fs tail → Framed sep s (f :: fs) tail

namespace Framed

/-- The tail holds no separator. -/
theorem absent (h : Framed sep s fs tail) : Absent sep tail := by
  induction h with
  | tail hno => exact hno
  | frame _ _ ih => exact ih

/-- A text is framed in one way. -/
theorem unique (h : Framed sep s fs tail) (h' : Framed sep s gs tail') :
    fs = gs ∧ tail = tail' := by
  induction h generalizing gs with
  | tail hno =>
      cases h' with
      | tail _ => exact ⟨rfl, rfl⟩
      | frame hfirst _ => exact absurd hno hfirst.not_absent
  | frame hfirst _ ih =>
      cases h' with
      | tail hno => exact absurd hno hfirst.not_absent
      | frame hfirst' hrest =>
          obtain ⟨rfl, rfl⟩ := hfirst.unique hfirst'
          obtain ⟨rfl, rfl⟩ := ih hrest
          exact ⟨rfl, rfl⟩

/-- **More text** is framed together with the unfinished tail. -/
theorem append (h : Framed sep s fs tail) (ht : Framed sep (tail ++ t) gs tail') :
    Framed sep (s ++ t) (fs ++ gs) tail' := by
  induction h with
  | tail _ => exact ht
  | frame hfirst _ ih => exact .frame (hfirst.append t) (ih ht)

/-- Every text is framed. -/
theorem exists_framed (hsep : sep ≠ []) (s : List α) : ∃ fs tail, Framed sep s fs tail := by
  classical
  induction hlen : s.length using Nat.strong_induction_on generalizing s with
  | _ n ih =>
      cases hindex : indexOf sep s with
      | none => exact ⟨[], s, .tail (indexOf_eq_none hindex)⟩
      | some i =>
          have hfirst := indexOf_eq_some hindex
          have hpos := List.length_pos_of_ne_nil hsep
          have hs : s.length = (s.take i).length + (sep.length +
              (s.drop (i + sep.length)).length) := by
            conv_lhs => rw [hfirst.eq]
            simp only [List.length_append]
          obtain ⟨fs, tail, h⟩ := ih _ (by omega) (s.drop (i + sep.length)) rfl
          exact ⟨s.take i :: fs, tail, .frame hfirst h⟩

end Framed

end Pwatch.Grammar
