import Pwatch.Grammar.SepBy

/-!
# Cursors and rules

A recursive-descent parser keeps the token list and the position of the next
token.  A `Rule` is a parsing function that moves the cursor forward when it
succeeds, so `Rule.sepBy`, which repeats an item while a separator follows,
terminates by construction.

A rule is `Sound` when what it consumes derives what it returns, and `Complete`
when it finds every derivation at the cursor whose continuation is of an expected
kind.  Both pass from an item to the sequence of items (`Rule.Sound.sepBy` and
`Rule.Complete.sepBy`), with `SepBy` as the derivations of the sequence.
-/

universe u v w

namespace Pwatch.Grammar

/-- A token list and the position of the next token. -/
structure Cursor (τ : Type u) where
  tokens : List τ
  pos : Nat

variable {τ : Type u} {α : Type v} {ε : Type w}

namespace Cursor

/-- The tokens that are still to come. -/
def rest (p : Cursor τ) : List τ := p.tokens.drop p.pos

/-- The cursor behind the next token. -/
def advance (p : Cursor τ) : Cursor τ := { p with pos := p.pos + 1 }

/-- Take the next token. -/
def next (p : Cursor τ) : Option (τ × Cursor τ) :=
  p.tokens[p.pos]?.map fun token ↦ (token, p.advance)

/-- Take the next token when it is an accepted one. -/
def consume (accepts : τ → Bool) (p : Cursor τ) : Bool × Cursor τ :=
  if p.tokens[p.pos]?.any accepts then (true, p.advance) else (false, p)

/-- Try one test after the other. -/
def consumeAny : List (τ → Bool) → Cursor τ → Bool × Cursor τ
  | [], p => (false, p)
  | accepts :: others, p =>
      match p.consume accepts with
      | (true, q) => (true, q)
      | (false, q) => consumeAny others q

/-- `q` stands in the same tokens, further on and not past the end. -/
structure Before (p q : Cursor τ) : Prop where
  tokens_eq : q.tokens = p.tokens
  lt : p.pos < q.pos
  le : q.pos ≤ q.tokens.length

variable {p q r : Cursor τ} {t : τ} {s : List τ}

theorem Before.trans (h₁ : Before p q) (h₂ : Before q r) : Before p r where
  tokens_eq := h₂.tokens_eq.trans h₁.tokens_eq
  lt := Nat.lt_trans h₁.lt h₂.lt
  le := h₂.le

theorem getElem?_pos (p : Cursor τ) : p.tokens[p.pos]? = p.rest.head? :=
  List.head?_drop.symm

theorem rest_advance (h : p.rest = t :: s) : p.advance.rest = s := by
  have htail : p.advance.rest = p.rest.tail := List.tail_drop.symm
  rw [htail, h, List.tail_cons]

theorem before_advance (h : p.rest = t :: s) : Before p p.advance where
  tokens_eq := rfl
  lt := Nat.lt_succ_self p.pos
  le := by
    by_contra hlen
    have hnil : p.rest = [] := List.drop_eq_nil_iff.mpr (Nat.not_lt.mp hlen)
    simp [hnil] at h

theorem mem_tokens_of_mem_rest (h : t ∈ p.rest) : t ∈ p.tokens := List.mem_of_mem_drop h

theorem next_eq_some (h : p.next = some (t, q)) : q = p.advance ∧ p.rest = t :: q.rest := by
  rw [next, getElem?_pos] at h
  cases hrest : p.rest with
  | nil => simp [hrest] at h
  | cons u s =>
      rw [hrest] at h
      obtain ⟨rfl, rfl⟩ : u = t ∧ p.advance = q := by simpa using h
      exact ⟨rfl, by rw [rest_advance hrest]⟩

theorem next_of_rest (h : p.rest = t :: s) : p.next = some (t, p.advance) := by
  rw [next, getElem?_pos, h]
  rfl

theorem consume_of_rest (h : p.rest = t :: s) (accepts : τ → Bool) :
    p.consume accepts = if accepts t then (true, p.advance) else (false, p) := by
  rw [consume, getElem?_pos, h]
  rfl

theorem consume_of_nil (h : p.rest = []) (accepts : τ → Bool) :
    p.consume accepts = (false, p) := by
  rw [consume, getElem?_pos, h]
  rfl

/-- Of several tests the next token has to pass one. -/
theorem consumeAny_of_rest (h : p.rest = t :: s) (tests : List (τ → Bool)) :
    p.consumeAny tests = if tests.any (· t) then (true, p.advance) else (false, p) := by
  induction tests with
  | nil => rfl
  | cons accepts others ih =>
      rw [consumeAny, consume_of_rest h]
      by_cases ha : accepts t = true
      · simp [ha]
      · simp [ha, ih]

theorem consumeAny_of_nil (h : p.rest = []) (tests : List (τ → Bool)) :
    p.consumeAny tests = (false, p) := by
  induction tests with
  | nil => rfl
  | cons accepts others ih =>
      rw [consumeAny, consume_of_nil h]
      exact ih

/-- A consumed token passes one of the tests. -/
theorem consumeAny_true {tests : List (τ → Bool)} (h : p.consumeAny tests = (true, q)) :
    ∃ t, p.rest = t :: q.rest ∧ tests.any (· t) = true ∧ Before p q := by
  cases hrest : p.rest with
  | nil => simp [consumeAny_of_nil hrest] at h
  | cons t s =>
      rw [consumeAny_of_rest hrest] at h
      split at h
      · rename_i hany
        obtain rfl : p.advance = q := congrArg Prod.snd h
        exact ⟨t, by rw [rest_advance hrest], hany, before_advance hrest⟩
      · simp at h

theorem consumeAny_false {tests : List (τ → Bool)} (h : p.consumeAny tests = (false, q)) :
    q = p := by
  cases hrest : p.rest with
  | nil => simpa [consumeAny_of_nil hrest, eq_comm] using h
  | cons t s =>
      rw [consumeAny_of_rest hrest] at h
      split at h
      · simp at h
      · exact (congrArg Prod.snd h).symm

end Cursor

/-! ## Rules -/

/-- A parsing function that moves forward when it succeeds. -/
structure Rule (ε : Type w) (τ : Type u) (α : Type v) where
  run : Cursor τ → Except ε (α × Cursor τ)
  before : ∀ {p q : Cursor τ} {a : α}, run p = .ok (a, q) → p.Before q

namespace Rule

open Cursor

/-- The loop of `sepBy`: while a separator comes next, take it and one more item. -/
def sepByLoop (item : Rule ε τ α) (seps : List (τ → Bool)) (as : List α) (p : Cursor τ) :
    Except ε (List α × Cursor τ) :=
  match _hsep : p.consumeAny seps with
  | (false, q) => .ok (as, q)
  | (true, q) =>
      match _hitem : item.run q with
      | .error e => .error e
      | .ok (a, r) => item.sepByLoop seps (as ++ [a]) r
termination_by p.tokens.length - p.pos
decreasing_by
  obtain ⟨-, -, -, hpq⟩ := consumeAny_true _hsep
  have hpr := hpq.trans (item.before _hitem)
  rw [hpr.tokens_eq]
  exact Nat.sub_lt_sub_left (Nat.lt_of_lt_of_le hpr.lt (hpr.tokens_eq ▸ hpr.le)) hpr.lt

theorem sepByLoop_before {item : Rule ε τ α} {seps : List (τ → Bool)} {as bs : List α}
    {p q : Cursor τ} (h : item.sepByLoop seps as p = .ok (bs, q)) : q = p ∨ p.Before q := by
  fun_induction sepByLoop item seps as p with
  | case1 as p q' hsep =>
      obtain ⟨-, rfl⟩ := Prod.mk.inj (Except.ok.inj h)
      exact .inl (consumeAny_false hsep)
  | case2 as p q' hsep e hitem => simp at h
  | case3 as p q' hsep a r hitem ih =>
      obtain ⟨-, -, -, hpq⟩ := consumeAny_true hsep
      have hpr := hpq.trans (item.before hitem)
      rcases ih h with rfl | hrq
      · exact .inr hpr
      · exact .inr (hpr.trans hrq)

/-- One item, and more of them while a separator comes next. -/
def sepBy (item : Rule ε τ α) (seps : List (τ → Bool)) : Rule ε τ (List α) where
  run p := do
    let (a, q) ← item.run p
    item.sepByLoop seps [a] q
  before {p r as} h := by
    cases hitem : item.run p with
    | error e => simp [hitem, bind, Except.bind] at h
    | ok aq =>
        obtain ⟨a, q⟩ := aq
        rw [hitem] at h
        rcases sepByLoop_before h with rfl | hqr
        · exact item.before hitem
        · exact (item.before hitem).trans hqr

/-! ## Soundness and completeness -/

/-- On tokens that are all valid, what the rule consumes derives what it returns. -/
def Sound (rule : Rule ε τ α) (valid : τ → Prop) (derives : List τ → α → Prop) : Prop :=
  ∀ ⦃p q : Cursor τ⦄ ⦃a : α⦄, (∀ t ∈ p.tokens, valid t) → rule.run p = .ok (a, q) →
    ∃ ts, p.rest = ts ++ q.rest ∧ derives ts a

/-- The rule finds every derivation at the cursor that is followed as expected. -/
def Complete (rule : Rule ε τ α) (derives : List τ → α → Prop) (follow : List τ → Prop) : Prop :=
  ∀ ⦃p : Cursor τ⦄ ⦃ts us : List τ⦄ ⦃a : α⦄, p.rest = ts ++ us → derives ts a → follow us →
    ∃ q, rule.run p = .ok (a, q) ∧ q.rest = us

/-- The token is a separator. -/
def IsSep (seps : List (τ → Bool)) (t : τ) : Prop := seps.any (· t) = true

/-- The input goes on with no separator. -/
def NoSep (seps : List (τ → Bool)) (us : List τ) : Prop := ∀ t ∈ us.head?, ¬ IsSep seps t

variable {item : Rule ε τ α} {seps : List (τ → Bool)} {valid : τ → Prop}
  {derives : List τ → α → Prop} {follow : List τ → Prop}

theorem sepByLoop_of_noSep {p : Cursor τ} (h : NoSep seps p.rest) (as : List α) :
    item.sepByLoop seps as p = .ok (as, p) := by
  have hfalse : p.consumeAny seps = (false, p) := by
    cases hrest : p.rest with
    | nil => exact consumeAny_of_nil hrest seps
    | cons t s =>
        have ht : ¬ seps.any (· t) = true := h t (by simp [hrest])
        rw [consumeAny_of_rest hrest]
        exact if_neg ht
  unfold sepByLoop
  split
  · rename_i q hsep
    rw [consumeAny_false hsep]
  · rename_i q hsep
    simp [hfalse] at hsep

theorem sepByLoop_of_isSep {p r : Cursor τ} {t : τ} {s : List τ} {a : α}
    (hrest : p.rest = t :: s) (ht : IsSep seps t) (hitem : item.run p.advance = .ok (a, r))
    (as : List α) : item.sepByLoop seps as p = item.sepByLoop seps (as ++ [a]) r := by
  have htrue : p.consumeAny seps = (true, p.advance) := by
    rw [consumeAny_of_rest hrest]
    exact if_pos ht
  conv_lhs => unfold sepByLoop
  split
  · rename_i q hsep
    simp [htrue] at hsep
  · rename_i q hsep
    obtain rfl : p.advance = q := by simpa [htrue] using hsep
    split
    · rename_i e herr
      simp [hitem] at herr
    · rename_i a' r' hitem'
      rw [hitem] at hitem'
      cases hitem'
      rfl

/-- What the loop adds to the items it was given. -/
theorem sepByLoop_sound (hitem : item.Sound valid derives) {as bs : List α} {p q : Cursor τ}
    (hvalid : ∀ t ∈ p.tokens, valid t) (h : item.sepByLoop seps as p = .ok (bs, q)) :
    (bs = as ∧ q = p) ∨ ∃ t ts cs, p.rest = t :: ts ++ q.rest ∧ IsSep seps t ∧
      SepBy (IsSep seps) derives ts cs ∧ bs = as ++ cs := by
  fun_induction sepByLoop item seps as p with
  | case1 as p q' hsep =>
      obtain ⟨rfl, rfl⟩ := Prod.mk.inj (Except.ok.inj h)
      exact .inl ⟨rfl, consumeAny_false hsep⟩
  | case2 as p q' hsep e hrun => simp at h
  | case3 as p q' hsep a r hrun ih =>
      obtain ⟨t, hrest, ht, hpq⟩ := consumeAny_true hsep
      have hvalid' : ∀ t ∈ q'.tokens, valid t := hpq.tokens_eq ▸ hvalid
      have hvalidr : ∀ t ∈ r.tokens, valid t := (item.before hrun).tokens_eq ▸ hvalid'
      obtain ⟨ts, hts, ha⟩ := hitem hvalid' hrun
      refine .inr ?_
      rcases ih hvalidr h with ⟨rfl, rfl⟩ | ⟨u, us, cs, hus, hu, hcs, rfl⟩
      · exact ⟨t, ts, [a], by rw [hrest, hts, List.cons_append], ht, .one ha, rfl⟩
      · refine ⟨t, ts ++ u :: us, a :: cs, ?_, ht, .more ha hu hcs, by simp⟩
        rw [hrest, hts, hus]
        simp

/-- **A sequence of sound items is sound.** -/
theorem Sound.sepBy (hitem : item.Sound valid derives) :
    (item.sepBy seps).Sound valid (SepBy (IsSep seps) derives) := by
  intro p r as hvalid h
  change (do let (a, q) ← item.run p; item.sepByLoop seps [a] q) = .ok (as, r) at h
  cases hrun : item.run p with
  | error e => simp [hrun, bind, Except.bind] at h
  | ok aq =>
      obtain ⟨a, q⟩ := aq
      rw [hrun] at h
      obtain ⟨ts, hts, ha⟩ := hitem hvalid hrun
      have hvalidq : ∀ t ∈ q.tokens, valid t := (item.before hrun).tokens_eq ▸ hvalid
      rcases sepByLoop_sound hitem hvalidq h with ⟨rfl, rfl⟩ | ⟨t, us, cs, hus, ht, hcs, rfl⟩
      · exact ⟨ts, hts, .one ha⟩
      · refine ⟨ts ++ t :: us, ?_, .more ha ht hcs⟩
        rw [hts, hus, List.append_assoc]

/-- **A sequence of complete items is complete**, where no separator follows it and
each item may be followed by a separator or by what follows the sequence. -/
theorem Complete.sepBy
    (hitem : item.Complete derives fun us ↦ follow us ∨ ∃ t ∈ us.head?, IsSep seps t) :
    (item.sepBy seps).Complete (SepBy (IsSep seps) derives)
      fun us ↦ follow us ∧ NoSep seps us := by
  -- with the items before the cursor given, by induction on the derivation
  have key : ∀ {ts : List τ} {as : List α}, SepBy (IsSep seps) derives ts as →
      ∀ {p : Cursor τ} {us : List τ} (before : List α), p.rest = ts ++ us →
        follow us → NoSep seps us →
        ∃ a q r, item.run p = .ok (a, q) ∧
          item.sepByLoop seps (before ++ [a]) q = .ok (before ++ as, r) ∧ r.rest = us := by
    intro ts as h
    induction h with
    | one ha =>
        intro p us before hrest hfollow hno
        obtain ⟨q, hrun, hq⟩ := hitem hrest ha (.inl hfollow)
        exact ⟨_, q, q, hrun, sepByLoop_of_noSep (hq ▸ hno) _, hq⟩
    | @more ts us' s a as ha hs _ ih =>
        intro p us before hrest hfollow hno
        rw [List.append_assoc, List.cons_append] at hrest
        obtain ⟨q, hrun, hq⟩ := hitem hrest ha (.inr ⟨s, rfl, hs⟩)
        obtain ⟨b, q', r, hrun', hloop, hr⟩ :=
          ih (before ++ [a]) (rest_advance hq) hfollow hno
        refine ⟨a, q, r, hrun, ?_, hr⟩
        rw [sepByLoop_of_isSep hq hs hrun', hloop, List.append_assoc, List.singleton_append]
  intro p ts us as hrest h ⟨hfollow, hno⟩
  obtain ⟨a, q, r, hrun, hloop, hr⟩ := key h [] hrest hfollow hno
  refine ⟨r, ?_, hr⟩
  change (do let (a, q) ← item.run p; item.sepByLoop seps [a] q) = .ok (as, r)
  rw [hrun]
  exact hloop

end Rule

end Pwatch.Grammar
