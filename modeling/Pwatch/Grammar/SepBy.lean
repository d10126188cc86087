import Mathlib.Data.List.Basic
import Mathlib.Data.List.Forall2

/-!
# Separated sequences

`SepBy sep item ts as` is the grammar rule `item (sep item)*` over tokens: `ts`
is read as the non-empty sequence `as` of items with a separator between two of
them.  Nesting it gives operators of different precedence: the inner separator
binds tighter.
-/

universe u v

namespace Pwatch.Grammar

variable {τ : Type u} {α : Type v}

/-- `item (sep item)*`. -/
inductive SepBy (sep : τ → Prop) (item : List τ → α → Prop) : List τ → List α → Prop
  | one {ts : List τ} {a : α} : item ts a → SepBy sep item ts [a]
  | more {ts us : List τ} {s : τ} {a : α} {as : List α} :
      item ts a → sep s → SepBy sep item us as → SepBy sep item (ts ++ s :: us) (a :: as)

namespace SepBy

variable {sep : τ → Prop} {item : List τ → α → Prop} {ts us : List τ} {as bs : List α}
  {s : τ}

/-- Two sequences with a separator between them are one sequence. -/
theorem append (h₁ : SepBy sep item ts as) (hs : sep s) (h₂ : SepBy sep item us bs) :
    SepBy sep item (ts ++ s :: us) (as ++ bs) := by
  induction h₁ with
  | one ha => exact .more ha hs h₂
  | more ha hs' _ ih =>
      rw [List.append_assoc]
      exact .more ha hs' ih

/-- No sequence is empty. -/
theorem ne_nil (h : SepBy sep item ts as) : as ≠ [] := by
  cases h <;> simp

/-- Two sequences that are joined by something their items take up: the last item of
the first and the first item of the second become one. -/
theorem join {a b : α} {join : α → α → α}
    (hjoin : ∀ {ts us : List τ} {a b : α}, item ts a → item us b →
      item (ts ++ s :: us) (join a b))
    (h₁ : SepBy sep item ts (as ++ [a])) (h₂ : SepBy sep item us (b :: bs)) :
    SepBy sep item (ts ++ s :: us) (as ++ join a b :: bs) := by
  generalize has : as ++ [a] = cs at h₁
  induction h₁ generalizing as with
  | @one ts a' hi =>
      obtain ⟨rfl, hlast⟩ : as = [] ∧ [a] = [a'] := by
        rcases List.append_eq_singleton_iff.mp has with h | ⟨-, h⟩
        · exact h
        · cases h
      obtain rfl := List.singleton_inj.mp hlast
      cases h₂ with
      | one hj => exact .one (hjoin hi hj)
      | @more us us' sep' _ _ hj hs hrest =>
          have hone : SepBy sep item ((_ ++ s :: us) ++ sep' :: us') (join a b :: bs) :=
            .more (hjoin hi hj) hs hrest
          simpa using hone
  | @more ts ts' sep' a' cs hi hs hrest ih =>
      cases as with
      | nil =>
          obtain ⟨-, rfl⟩ := List.cons.inj has
          exact absurd rfl hrest.ne_nil
      | cons d as =>
          obtain ⟨rfl, htail⟩ := List.cons.inj has
          rw [List.append_assoc]
          exact .more hi hs (ih htail)

/-- A relation on tokens under which separators and items are stable is one under
which sequences are stable. -/
theorem congr {rel : τ → τ → Prop} (hsep : ∀ s s' : τ, rel s s' → sep s → sep s')
    (hitem : ∀ (ts ts' : List τ) (a : α), List.Forall₂ rel ts ts' → item ts a → item ts' a)
    {ts' : List τ} (hts : List.Forall₂ rel ts ts') (h : SepBy sep item ts as) :
    SepBy sep item ts' as := by
  induction h generalizing ts' with
  | one hi => exact .one (hitem _ _ _ hts hi)
  | @more ts us s a as hi hs _ ih =>
      obtain ⟨front, back, hfront, hback, rfl⟩ :
          ∃ front back, List.Forall₂ rel ts front ∧ List.Forall₂ rel (s :: us) back ∧
            ts' = front ++ back :=
        ⟨ts'.take ts.length, ts'.drop ts.length, List.forall₂_take_append _ _ _ hts.flip |>.flip,
          List.forall₂_drop_append _ _ _ hts.flip |>.flip, (List.take_append_drop _ _).symm⟩
      obtain ⟨s', us', hss, hus, rfl⟩ := List.forall₂_cons_left_iff.mp hback
      exact .more (hitem _ _ _ hfront hi) (hsep _ _ hss hs) (ih hus)

/-- Every element of a sequence was read as an item, from tokens of the sequence. -/
theorem item_of_mem (h : SepBy sep item ts as) {a : α} (ha : a ∈ as) :
    ∃ us, us ⊆ ts ∧ item us a := by
  induction h with
  | one hi =>
      obtain rfl := List.mem_singleton.mp ha
      exact ⟨_, List.Subset.refl _, hi⟩
  | more hi _ _ ih =>
      rcases List.mem_cons.mp ha with rfl | ha
      · exact ⟨_, List.subset_append_left _ _, hi⟩
      · obtain ⟨us, hsub, hus⟩ := ih ha
        exact ⟨us, fun t ht ↦ List.mem_append_right _ (List.mem_cons_of_mem _ (hsub ht)), hus⟩

end SepBy

end Pwatch.Grammar
