import Mathlib.Data.List.Basic
import Mathlib.Data.List.Infix

/-!
# Maximal munch

A lexical grammar is a set of lexemes and a set of characters that separate them.
`Munch skip lexeme input tokens` says that `tokens` is the maximal-munch reading
of `input`: separators are skipped, and every token is the longest lexeme the
remaining input begins with.  When no lexeme begins with a separator the reading
is unique (`Munch.unique`), so a lexer is correct as soon as it finds one.
-/

universe u

namespace Pwatch.Grammar

variable {α : Type u}

/-- `t` is the longest lexeme `input` begins with. -/
structure Longest (lexeme : List α → Prop) (t input : List α) : Prop where
  isLexeme : lexeme t
  ne_nil : t ≠ []
  isPrefix : t <+: input
  longest : ∀ u, lexeme u → u <+: input → u.length ≤ t.length

/-- The maximal-munch reading of an input. -/
inductive Munch (skip : α → Prop) (lexeme : List α → Prop) : List α → List (List α) → Prop
  | nil : Munch skip lexeme [] []
  | /-- A separator before the next token. -/
    skip {c : α} {s : List α} {ts : List (List α)} :
      skip c → Munch skip lexeme s ts → Munch skip lexeme (c :: s) ts
  | /-- The longest lexeme is the next token. -/
    token {t s : List α} {ts : List (List α)} :
      Longest lexeme t (t ++ s) → Munch skip lexeme s ts → Munch skip lexeme (t ++ s) (t :: ts)

variable {skip : α → Prop} {lexeme : List α → Prop} {s t u : List α} {ts us : List (List α)}
  {c : α}

/-- Two longest lexemes of one input are the same. -/
theorem Longest.unique (ht : Longest lexeme t s) (hu : Longest lexeme u s) : t = u := by
  have hlen : t.length = u.length :=
    Nat.le_antisymm (hu.longest t ht.isLexeme ht.isPrefix) (ht.longest u hu.isLexeme hu.isPrefix)
  exact (List.prefix_of_prefix_length_le ht.isPrefix hu.isPrefix hlen.le).eq_of_length hlen

/-- A longest lexeme begins with the first character of the input. -/
theorem Longest.head (ht : Longest lexeme t (c :: s)) : ∃ t', t = c :: t' := by
  obtain ⟨d, t', rfl⟩ := List.exists_cons_of_ne_nil ht.ne_nil
  obtain ⟨rfl, -⟩ := List.cons_prefix_cons.mp ht.isPrefix
  exact ⟨t', rfl⟩

namespace Munch

/-- Nothing is read from the empty input. -/
theorem nil_iff : Munch skip lexeme [] ts ↔ ts = [] := by
  constructor
  · intro h
    generalize hs : ([] : List α) = s at h
    cases h with
    | nil => rfl
    | skip => cases hs
    | token ht _ => exact absurd (List.append_eq_nil_iff.mp hs.symm).1 ht.ne_nil
  · rintro rfl
    exact .nil

/-- How a reading of a non-empty input begins. -/
theorem cons_inv (h : Munch skip lexeme (c :: s) ts) :
    (skip c ∧ Munch skip lexeme s ts) ∨
      ∃ t s' ts', c :: s = t ++ s' ∧ ts = t :: ts' ∧ Longest lexeme t (c :: s) ∧
        Munch skip lexeme s' ts' := by
  generalize hs : c :: s = s₀ at h
  cases h with
  | nil => cases hs
  | skip hc hm => cases hs; exact .inl ⟨hc, hm⟩
  | token ht hm => exact .inr ⟨_, _, _, rfl, rfl, ht, hm⟩

/-- A separator that begins no lexeme is skipped. -/
theorem skip_iff (hc : skip c) (hno : ∀ s, ¬ lexeme (c :: s)) :
    Munch skip lexeme (c :: s) ts ↔ Munch skip lexeme s ts := by
  refine ⟨fun h ↦ ?_, .skip hc⟩
  rcases h.cons_inv with ⟨-, hm⟩ | ⟨t, -, -, -, -, ht, -⟩
  · exact hm
  · obtain ⟨t', rfl⟩ := ht.head
    exact absurd ht.isLexeme (hno t')

/-- An input that begins with a lexeme and not with a separator is read by taking
its longest lexeme. -/
theorem token_iff (hc : ¬ skip c) (ht : Longest lexeme (c :: t) (c :: t ++ s)) :
    Munch skip lexeme (c :: t ++ s) us ↔
      ∃ ts, us = (c :: t) :: ts ∧ Munch skip lexeme s ts := by
  constructor
  · intro h
    rcases h.cons_inv with ⟨hskip, -⟩ | ⟨u, s', ts, hs, rfl, hu, hm⟩
    · exact absurd hskip hc
    · obtain rfl := ht.unique hu
      have hs' : c :: t ++ s = c :: t ++ s' := hs
      obtain rfl : s = s' := List.append_cancel_left hs'
      exact ⟨ts, rfl, hm⟩
  · rintro ⟨ts, rfl, hm⟩
    exact .token ht hm

/-- An input that begins neither with a separator nor with a lexeme is not read. -/
theorem not_cons (hc : ¬ skip c) (hno : ∀ s, ¬ lexeme (c :: s)) :
    ¬ Munch skip lexeme (c :: s) ts := by
  intro h
  rcases h.cons_inv with ⟨hskip, -⟩ | ⟨t, -, -, -, -, ht, -⟩
  · exact hc hskip
  · obtain ⟨t', rfl⟩ := ht.head
    exact hno t' ht.isLexeme

/-- **Maximal munch is a function** when no lexeme begins with a separator. -/
theorem unique (hno : ∀ c s, skip c → ¬ lexeme (c :: s)) (ht : Munch skip lexeme s ts)
    (hu : Munch skip lexeme s us) : ts = us := by
  induction ht generalizing us with
  | nil => exact (nil_iff.mp hu).symm
  | skip hc _ ih => exact ih ((skip_iff hc fun s ↦ hno _ s hc).mp hu)
  | @token t s ts ht _ ih =>
      obtain ⟨c, t', rfl⟩ := List.exists_cons_of_ne_nil ht.ne_nil
      obtain ⟨us, rfl, hm⟩ := (token_iff (fun hc ↦ hno c t' hc ht.isLexeme) ht).mp hu
      rw [ih hm]

/-- Every token is a lexeme. -/
theorem lexeme_of_mem (h : Munch skip lexeme s ts) (ht : t ∈ ts) : lexeme t := by
  induction h with
  | nil => simp at ht
  | skip _ _ ih => exact ih ht
  | token hl _ ih =>
      rcases List.mem_cons.mp ht with rfl | ht
      · exact hl.isLexeme
      · exact ih ht

end Munch

end Pwatch.Grammar
