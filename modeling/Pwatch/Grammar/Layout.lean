import Pwatch.Grammar.MaximalMunch

/-!
# Layout

Where tokens stand in an input, and what separators between them do to its
maximal-munch reading.  `Layout skip input tokens` says that `input` is the tokens
in order with separators anywhere between them; unlike `Munch` it does not say that
they are the longest ones, so it also names the positions between two tokens: an
input is cut between its tokens where the front part lays out the first of them.

When no lexeme contains a separator, a separator at such a position changes nothing
(`Munch.insert`), and an input cut at a separator is read piece by piece
(`Munch.append_skip_iff`).
-/

universe u

namespace Pwatch.Grammar

variable {α : Type u}

/-- The tokens stand in the input in order, with separators before, between and
behind them. -/
inductive Layout (skip : α → Prop) : List α → List (List α) → Prop
  | nil : Layout skip [] []
  | skip {c : α} {s : List α} {ts : List (List α)} :
      skip c → Layout skip s ts → Layout skip (c :: s) ts
  | token {t s : List α} {ts : List (List α)} :
      t ≠ [] → Layout skip s ts → Layout skip (t ++ s) (t :: ts)

variable {skip : α → Prop} {lexeme : List α → Prop} {s t u v : List α} {ts us : List (List α)}
  {c : α}

namespace Layout

/-- Without its separators the input is the tokens and nothing else. -/
theorem flatten_eq {isSkip : α → Bool} (h : Layout (fun c ↦ isSkip c = true) s ts)
    (hts : ∀ t ∈ ts, ∀ c ∈ t, isSkip c = false) :
    ts.flatten = s.filter fun c ↦ !isSkip c := by
  induction h with
  | nil => rfl
  | skip hc _ ih => rw [List.filter_cons_of_neg (by simp [hc]), ih hts]
  | @token t s ts _ _ ih =>
      have ht : t.filter (fun c ↦ !isSkip c) = t :=
        List.filter_eq_self.mpr fun c hc ↦ by simp [hts t (by simp) c hc]
      rw [List.flatten_cons, List.filter_append, ht, ih fun u hu ↦ hts u (by simp [hu])]

/-- Two pieces of an input one after the other. -/
theorem append (hs : Layout skip s ts) (ht : Layout skip t us) :
    Layout skip (s ++ t) (ts ++ us) := by
  induction hs with
  | nil => exact ht
  | skip hc _ ih => exact .skip hc ih
  | token hne _ ih =>
      rw [List.append_assoc]
      exact .token hne ih

end Layout

/-! ## The longest lexeme and what follows it -/

/-- A lexeme is the longest one of its own text. -/
theorem Longest.self (ht : lexeme t) (hne : t ≠ []) : Longest lexeme t t where
  isLexeme := ht
  ne_nil := hne
  isPrefix := List.prefix_refl t
  longest _ _ hpre := hpre.length_le

section

variable (hno : ∀ t, lexeme t → ∀ c ∈ t, ¬ skip c)

include hno

/-- A lexeme the input begins with ends before the first separator. -/
theorem prefix_of_skip (hc : skip c) (ht : lexeme t) (hpre : t <+: s ++ c :: u) : t <+: s := by
  rcases List.prefix_or_prefix_of_prefix hpre (List.prefix_append s _) with hts | ⟨r, rfl⟩
  · exact hts
  · cases r with
    | nil => simp
    | cons d r =>
        have hcons : d :: r <+: c :: u := (List.prefix_append_right_inj s).mp hpre
        obtain ⟨rfl, -⟩ := List.cons_prefix_cons.mp hcons
        exact absurd hc (hno _ ht _ (by simp))

/-- What stands behind the next separator does not matter: the longest lexeme of
`s ++ v` that lies in `s` is the longest one of `s` and a separator. -/
theorem Longest.before_skip (hc : skip c) (ht : Longest lexeme t (s ++ v)) (hpre : t <+: s) :
    Longest lexeme t (s ++ c :: u) where
  isLexeme := ht.isLexeme
  ne_nil := ht.ne_nil
  isPrefix := hpre.trans (List.prefix_append _ _)
  longest w hw hwpre :=
    ht.longest w hw ((prefix_of_skip hno hc hw hwpre).trans (List.prefix_append _ _))

end

namespace Munch

/-- A reading is a layout. -/
theorem layout (h : Munch skip lexeme s ts) : Layout skip s ts := by
  induction h with
  | nil => exact .nil
  | skip hc _ ih => exact .skip hc ih
  | token ht _ ih => exact .token ht.ne_nil ih

/-- No token of a reading is empty. -/
theorem ne_nil_of_mem (h : Munch skip lexeme s ts) (ht : t ∈ ts) : t ≠ [] := by
  induction h with
  | nil => simp at ht
  | skip _ _ ih => exact ih ht
  | token hl _ ih =>
      rcases List.mem_cons.mp ht with rfl | ht
      · exact hl.ne_nil
      · exact ih ht

/-- A lexeme alone is read as itself. -/
theorem one (ht : lexeme t) (hne : t ≠ []) : Munch skip lexeme t [t] := by
  have hlong : Longest lexeme t (t ++ []) := by
    rw [List.append_nil]
    exact .self ht hne
  have hmunch : Munch skip lexeme (t ++ []) [t] := .token hlong .nil
  rwa [List.append_nil] at hmunch

/-- Separators in front are skipped. -/
theorem skips (hw : ∀ c ∈ u, skip c) (h : Munch skip lexeme s ts) :
    Munch skip lexeme (u ++ s) ts := by
  induction u with
  | nil => exact h
  | cons c u ih => exact .skip (hw c (by simp)) (ih fun d hd ↦ hw d (by simp [hd]))

/-- Between any two of its tokens a reading can be cut. -/
theorem exists_boundary (h : Munch skip lexeme s (ts ++ us)) :
    ∃ t u, s = t ++ u ∧ Layout skip t ts ∧ Layout skip u us := by
  generalize hvs : ts ++ us = vs at h
  induction h generalizing ts with
  | nil =>
      obtain ⟨rfl, rfl⟩ := List.append_eq_nil_iff.mp hvs
      exact ⟨[], [], rfl, .nil, .nil⟩
  | @skip c s vs hc _ ih =>
      obtain ⟨t, u, rfl, ht, hu⟩ := ih hvs
      exact ⟨c :: t, u, rfl, .skip hc ht, hu⟩
  | @token w s vs hw hm ih =>
      cases ts with
      | nil =>
          have hus : Munch skip lexeme (w ++ s) us := by
            rw [List.nil_append] at hvs
            exact hvs ▸ .token hw hm
          exact ⟨[], w ++ s, rfl, .nil, hus.layout⟩
      | cons w' ts =>
          obtain ⟨rfl, htail⟩ := List.cons.inj hvs
          obtain ⟨t, u, rfl, ht, hu⟩ := ih htail
          exact ⟨w' ++ t, u, (List.append_assoc _ _ _).symm, .token hw.ne_nil ht, hu⟩

section

variable (hno : ∀ t, lexeme t → ∀ c ∈ t, ¬ skip c)

include hno

/-- A token that stands in front of the input is the first one of the reading. -/
theorem token_inv (hne : t ≠ []) (h : Munch skip lexeme (t ++ s) (t :: ts)) :
    Longest lexeme t (t ++ s) ∧ Munch skip lexeme s ts := by
  obtain ⟨c, t', rfl⟩ := List.exists_cons_of_ne_nil hne
  rcases h.cons_inv with ⟨hc, -⟩ | ⟨w, s', ts', hs, heq, hw, hm⟩
  · have hlex : lexeme (c :: t') := h.lexeme_of_mem (by simp)
    exact absurd hc (hno _ hlex c (by simp))
  · obtain ⟨rfl, rfl⟩ := List.cons.inj heq
    have hs' : c :: t' ++ s = c :: t' ++ s' := hs
    obtain rfl : s = s' := List.append_cancel_left hs'
    exact ⟨hw, hm⟩

/-- **Separators between two tokens change nothing.** -/
theorem insert (hw : ∀ c ∈ u, skip c) (hs : Layout skip s ts)
    (h : Munch skip lexeme (s ++ t) (ts ++ us)) :
    Munch skip lexeme (s ++ u ++ t) (ts ++ us) := by
  cases u with
  | nil => rwa [List.append_nil]
  | cons c u =>
      have hc : skip c := hw c (by simp)
      induction hs with
      | nil => exact h.skips hw
      | @skip d s ts hd _ ih =>
          refine .skip hd (ih ?_)
          exact (skip_iff hd fun r hr ↦ hno _ hr d (by simp) hd).mp h
      | @token w s ts hne _ ih =>
          rw [List.append_assoc, List.cons_append] at h
          obtain ⟨hlong, hm⟩ := token_inv hno hne h
          have hlong' : Longest lexeme w (w ++ s ++ c :: (u ++ t)) := by
            rw [← List.append_assoc] at hlong
            exact hlong.before_skip hno hc (List.prefix_append _ _)
          have hmunch : Munch skip lexeme (w ++ (s ++ c :: u ++ t)) (w :: (ts ++ us)) :=
            .token (by simpa using hlong') (ih hm)
          simpa using hmunch

/-- Two readings with a separator between the inputs are one reading. -/
theorem append_skip (hc : skip c) (hs : Munch skip lexeme s ts) (ht : Munch skip lexeme t us) :
    Munch skip lexeme (s ++ c :: t) (ts ++ us) := by
  induction hs with
  | nil => exact .skip hc ht
  | skip hd _ ih => exact .skip hd ih
  | @token w s ts hw _ ih =>
      have hw' : Longest lexeme w (w ++ s ++ []) := by rwa [List.append_nil]
      have hlong := hw'.before_skip hno (u := t) hc (List.prefix_append _ _)
      rw [List.append_assoc] at hlong ⊢
      exact .token hlong ih

/-- **An input is read piece by piece** where it is cut at a separator. -/
theorem append_skip_iff (hc : skip c) {vs : List (List α)} :
    Munch skip lexeme (s ++ c :: t) vs ↔
      ∃ ts us, vs = ts ++ us ∧ Munch skip lexeme s ts ∧ Munch skip lexeme t us := by
  constructor
  · intro h
    generalize hin : s ++ c :: t = input at h
    induction h generalizing s with
    | nil => simp at hin
    | @skip d r vs hd hm ih =>
        cases s with
        | nil =>
            obtain ⟨rfl, rfl⟩ := List.cons.inj hin
            exact ⟨[], vs, rfl, .nil, hm⟩
        | cons e s =>
            obtain ⟨rfl, hr⟩ := List.cons.inj hin
            obtain ⟨ts, us, rfl, hs, ht⟩ := ih hr
            exact ⟨ts, us, rfl, .skip hd hs, ht⟩
    | @token w r vs hw _ ih =>
        rw [← hin] at hw
        obtain ⟨s, rfl⟩ := prefix_of_skip hno hc hw.isLexeme hw.isPrefix
        rw [List.append_assoc] at hin
        obtain ⟨ts, us, rfl, hs, ht⟩ := ih (List.append_cancel_left hin)
        have hw' : Longest lexeme w (w ++ s) := {
          isLexeme := hw.isLexeme
          ne_nil := hw.ne_nil
          isPrefix := List.prefix_append _ _
          longest := fun x hx hpre ↦ hw.longest x hx (hpre.trans (List.prefix_append _ _)) }
        exact ⟨w :: ts, us, rfl, .token hw' hs, ht⟩
  · rintro ⟨ts, us, rfl, hs, ht⟩
    exact append_skip hno hc hs ht

/-- A lexeme between two separators is one token of the reading. -/
theorem surround_iff {d : α} (hc : skip c) (hd : skip d) (ht : lexeme t) (hne : t ≠ [])
    {vs : List (List α)} :
    Munch skip lexeme (s ++ c :: (t ++ d :: u)) vs ↔
      ∃ ts us, vs = ts ++ t :: us ∧ Munch skip lexeme s ts ∧ Munch skip lexeme u us := by
  have hfirst : ∀ c s, skip c → ¬ lexeme (c :: s) := fun c s hc hs ↦ hno _ hs c (by simp) hc
  rw [append_skip_iff hno hc]
  constructor
  · rintro ⟨ts, vs, rfl, hs, hvs⟩
    obtain ⟨ws, us, rfl, hws, hus⟩ := (append_skip_iff hno hd).mp hvs
    obtain rfl : ws = [t] := unique hfirst hws (one ht hne)
    exact ⟨ts, us, rfl, hs, hus⟩
  · rintro ⟨ts, us, rfl, hs, hus⟩
    exact ⟨ts, t :: us, rfl, hs, append_skip hno hd (one ht hne) hus⟩

/-- Lexemes joined by a separator are read as themselves. -/
theorem intercalate (hc : skip c) (hts : ∀ t ∈ ts, lexeme t ∧ t ≠ []) :
    Munch skip lexeme ([c].intercalate ts) ts := by
  induction ts with
  | nil => exact .nil
  | cons t ts ih =>
      have ht : Munch skip lexeme t [t] := one (hts t (by simp)).1 (hts t (by simp)).2
      cases ts with
      | nil => simpa [List.intercalate] using ht
      | cons u us =>
          have hrest := ih fun w hw ↦ hts w (by simp [hw])
          rw [List.intercalate_cons_cons]
          have := append_skip hno hc ht hrest
          simpa using this

end

end Munch

end Pwatch.Grammar
