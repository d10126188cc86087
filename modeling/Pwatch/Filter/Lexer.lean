import Pwatch.Text.Number
import Pwatch.Grammar.MaximalMunch

/-!
# The filter lexer

`tokenize` of `src/filter.rs` and its specification.  The lexical grammar of
register filters has words and twelve operators, separated by Unicode whitespace;
`tokenize` returns the maximal-munch reading of its input and fails exactly when
there is none.
-/

namespace Pwatch.Filter

open Text Grammar

/-! ## The code -/

/-- The characters of a word: `is_ascii_alphanumeric` or `_`. -/
def isWordChar (c : Char) : Bool := c.isAlphanum || c == '_'

/-- The characters an operator starts with. -/
def isOperatorChar (c : Char) : Bool :=
  c == '=' || c == '!' || c == '>' || c == '<' || c == '&' || c == '|'

/-- `continues_operator`: whether the operator goes on with the next character. -/
def continuesOperator (ch next : Char) : Bool :=
  match ch with
  | '=' | '!' | '>' | '<' => next == '='
  | '&' => next == '&'
  | '|' => next == '|'
  | _ => false

theorem length_dropWhile_lt (p : Char → Bool) (c : Char) (s : Str) :
    (s.dropWhile p).length < (c :: s).length :=
  Nat.lt_succ_of_le (List.dropWhile_sublist p).length_le

/-- `tokenize`.  The inner loop of the source takes word characters while the next
one is a word character; the lookahead after an operator is the match on `chars`. -/
def tokenize : Str → Except Str (List Str)
  | [] => .ok []
  | ch :: chars =>
      if isWhitespace ch then tokenize chars
      else if isOperatorChar ch then
        match chars with
        | next :: rest =>
            if continuesOperator ch next then return [ch, next] :: (← tokenize rest)
            else return [ch] :: (← tokenize (next :: rest))
        | [] => .ok [[ch]]
      else if isWordChar ch then
        return (ch :: chars.takeWhile isWordChar) :: (← tokenize (chars.dropWhile isWordChar))
      else .error ("unexpected character in filter: ".toList ++ [ch])
termination_by s => s.length
decreasing_by
  all_goals first
    | exact length_dropWhile_lt isWordChar ch chars
    | (simp only [List.length_cons]; omega)

theorem tokenize_nil : tokenize [] = .ok [] := by
  unfold tokenize
  rfl

/-! ## The lexical grammar -/

/-- The operators of a filter. -/
def operators : List Str :=
  [['='], ['=', '='], ['!'], ['!', '='], ['>'], ['>', '='], ['<'], ['<', '='], ['&'], ['&', '&'],
    ['|'], ['|', '|']]

/-- A word: one or more of the characters `A-Z a-z 0-9 _`. -/
def IsWord (t : Str) : Prop := t ≠ [] ∧ ∀ c ∈ t, isWordChar c = true

/-- The lexemes of a filter. -/
def Lexeme (t : Str) : Prop := IsWord t ∨ t ∈ operators

/-- Unicode whitespace separates lexemes. -/
def Separator (c : Char) : Prop := isWhitespace c = true

/-- `tokens` is the maximal-munch reading of `input`. -/
def Lexes (input : Str) (tokens : List Str) : Prop := Munch Separator Lexeme input tokens

/-! ## Which character begins what -/

theorem not_isWordChar_of_isOperatorChar {c : Char} (h : isOperatorChar c = true) :
    isWordChar c = false := by
  simp only [isOperatorChar, Bool.or_eq_true, beq_iff_eq] at h
  rcases h with ((((rfl | rfl) | rfl) | rfl) | rfl) | rfl <;> rfl

theorem not_isWhitespace_of_isOperatorChar {c : Char} (h : isOperatorChar c = true) :
    isWhitespace c = false := by
  simp only [isOperatorChar, Bool.or_eq_true, beq_iff_eq] at h
  rcases h with ((((rfl | rfl) | rfl) | rfl) | rfl) | rfl <;> rfl

/-- Word characters are ASCII and none of them is a space. -/
theorem not_isWhitespace_of_isWordChar {c : Char} (h : isWordChar c = true) :
    isWhitespace c = false := by
  have hcode : (48 ≤ c.toNat ∧ c.toNat ≤ 57) ∨ (65 ≤ c.toNat ∧ c.toNat ≤ 90) ∨
      (97 ≤ c.toNat ∧ c.toNat ≤ 122) ∨ c.toNat = 95 := by
    change ((c.isUpper || c.isLower || c.isDigit) || c == '_') = true at h
    simp only [Bool.or_eq_true, isUpper_iff, isLower_iff, isDigit_iff, beq_iff_eq] at h
    rcases h with ((h | h) | h) | rfl
    · exact .inr (.inl h)
    · exact .inr (.inr (.inl h))
    · exact .inl h
    · exact .inr (.inr (.inr rfl))
  simp only [isWhitespace, Bool.or_eq_false_iff, Bool.and_eq_false_iff, decide_eq_false_iff_not,
    beq_eq_false_iff_ne, ne_eq]
  omega

theorem isOperatorChar_of_mem {c : Char} {s : Str} (h : c :: s ∈ operators) :
    isOperatorChar c = true := by
  simp only [operators, List.mem_cons, List.cons.injEq, List.not_mem_nil, or_false] at h
  rcases h with h | h | h | h | h | h | h | h | h | h | h | h <;> obtain ⟨rfl, -⟩ := h <;> rfl

/-- An operator has one character, or a second one that continues it. -/
theorem operator_cases {c : Char} {s : Str} (h : c :: s ∈ operators) :
    s = [] ∨ ∃ d, s = [d] ∧ continuesOperator c d = true := by
  simp only [operators, List.mem_cons, List.cons.injEq, List.not_mem_nil, or_false] at h
  rcases h with h | h | h | h | h | h | h | h | h | h | h | h <;> obtain ⟨rfl, rfl⟩ := h
  all_goals first
    | exact .inl rfl
    | exact .inr ⟨_, rfl, rfl⟩

theorem mem_operators_one {c : Char} (h : isOperatorChar c = true) : [c] ∈ operators := by
  simp only [isOperatorChar, Bool.or_eq_true, beq_iff_eq] at h
  rcases h with ((((rfl | rfl) | rfl) | rfl) | rfl) | rfl <;> decide

theorem mem_operators_two {c d : Char} (h : isOperatorChar c = true)
    (hd : continuesOperator c d = true) : [c, d] ∈ operators := by
  simp only [isOperatorChar, Bool.or_eq_true, beq_iff_eq] at h
  rcases h with ((((rfl | rfl) | rfl) | rfl) | rfl) | rfl
  all_goals
    obtain rfl := beq_iff_eq.mp hd
    decide

/-- A lexeme is not empty, and its first character is one of a word or of an operator. -/
theorem Lexeme.cons_cases {c : Char} {s : Str} (h : Lexeme (c :: s)) :
    (isWordChar c = true ∧ ∀ d ∈ s, isWordChar d = true) ∨
      (isOperatorChar c = true ∧ c :: s ∈ operators) := by
  rcases h with ⟨-, h⟩ | h
  · exact .inl ⟨h c (by simp), fun d hd ↦ h d (by simp [hd])⟩
  · exact .inr ⟨isOperatorChar_of_mem h, h⟩

theorem Separator.not_lexeme {c : Char} (h : Separator c) (s : Str) : ¬ Lexeme (c :: s) := by
  intro hl
  change isWhitespace c = true at h
  rcases hl.cons_cases with ⟨hc, -⟩ | ⟨hc, -⟩
  · simp [not_isWhitespace_of_isWordChar hc] at h
  · simp [not_isWhitespace_of_isOperatorChar hc] at h

/-! ## The longest lexeme at each kind of character -/

theorem longest_word {c : Char} (hc : isWordChar c = true) (s : Str) :
    Longest Lexeme (c :: s.takeWhile isWordChar) (c :: s) where
  isLexeme := .inl ⟨by simp, fun d hd ↦ by
    rcases List.mem_cons.mp hd with rfl | hd
    · exact hc
    · exact List.mem_takeWhile_imp hd⟩
  ne_nil := by simp
  isPrefix := List.cons_prefix_cons.mpr ⟨rfl, List.takeWhile_prefix _⟩
  longest u hu hpre := by
    cases u with
    | nil => exact Nat.zero_le _
    | cons d u =>
        obtain ⟨rfl, rest, rfl⟩ := List.cons_prefix_cons.mp hpre
        rcases hu.cons_cases with ⟨-, hword⟩ | ⟨hop, -⟩
        · have htake : u.takeWhile isWordChar = u := List.takeWhile_eq_self_iff.mpr hword
          rw [List.length_cons, List.length_cons, List.takeWhile_append, htake, if_pos rfl]
          simp
        · simp [not_isWordChar_of_isOperatorChar hop] at hc

theorem longest_operator_two {c d : Char} (hc : isOperatorChar c = true)
    (hd : continuesOperator c d = true) (s : Str) : Longest Lexeme [c, d] (c :: d :: s) where
  isLexeme := .inr (mem_operators_two hc hd)
  ne_nil := by simp
  isPrefix := ⟨s, rfl⟩
  longest u hu hpre := by
    cases u with
    | nil => exact Nat.zero_le _
    | cons e u =>
        obtain ⟨rfl, -⟩ := List.cons_prefix_cons.mp hpre
        rcases hu.cons_cases with ⟨hword, -⟩ | ⟨-, hop⟩
        · simp [not_isWordChar_of_isOperatorChar hc] at hword
        · rcases operator_cases hop with rfl | ⟨_, rfl, -⟩ <;> simp

theorem longest_operator_one {c : Char} (hc : isOperatorChar c = true) {s : Str}
    (hs : ∀ d ∈ s.head?, continuesOperator c d = false) : Longest Lexeme [c] (c :: s) where
  isLexeme := .inr (mem_operators_one hc)
  ne_nil := by simp
  isPrefix := ⟨s, rfl⟩
  longest u hu hpre := by
    cases u with
    | nil => exact Nat.zero_le _
    | cons e u =>
        obtain ⟨rfl, rest, rfl⟩ := List.cons_prefix_cons.mp hpre
        rcases hu.cons_cases with ⟨hword, -⟩ | ⟨-, hop⟩
        · simp [not_isWordChar_of_isOperatorChar hc] at hword
        · rcases operator_cases hop with rfl | ⟨d, rfl, hd⟩
          · simp
          · simp [hs d (by simp)] at hd

/-! ## Correctness -/

theorem cons_bind_eq_ok {x : Except Str (List Str)} {t : Str} {us : List Str} :
    (do return t :: (← x)) = Except.ok us ↔ ∃ ts, us = t :: ts ∧ x = .ok ts := by
  cases x with
  | error e => simp [bind, Except.bind]
  | ok ts => simp [bind, Except.bind, pure, Except.pure, eq_comm]

theorem tokenize_nil_eq_ok_iff (ts : List Str) : tokenize [] = .ok ts ↔ Lexes [] ts := by
  refine Iff.trans ⟨fun h ↦ ?_, fun h ↦ ?_⟩ Munch.nil_iff.symm
  · rw [tokenize_nil] at h
    exact (Except.ok.inj h).symm
  · rw [tokenize_nil, h]

/-- Taking the longest lexeme at the front of the input, given what `tokenize` does
with the rest. -/
theorem cons_bind_eq_ok_iff_lexes {c : Char} {t s : Str} {us : List Str}
    (hws : ¬ Separator c) (ht : Longest Lexeme (c :: t) (c :: t ++ s))
    (ih : ∀ ts, tokenize s = .ok ts ↔ Lexes s ts) :
    (do return (c :: t) :: (← tokenize s)) = Except.ok us ↔ Lexes (c :: t ++ s) us := by
  rw [cons_bind_eq_ok]
  simp only [ih]
  exact (Munch.token_iff hws ht).symm

/-- **The lexer computes the maximal-munch reading**, and fails when there is none. -/
theorem tokenize_eq_ok_iff (input : Str) (tokens : List Str) :
    tokenize input = .ok tokens ↔ Lexes input tokens := by
  fun_induction tokenize input generalizing tokens with
  | case1 =>
      have h := tokenize_nil_eq_ok_iff tokens
      rwa [tokenize_nil] at h
  | case2 ch chars hws ih =>
      rw [ih]
      have hsep : Separator ch := hws
      exact (Munch.skip_iff hsep hsep.not_lexeme).symm
  | case3 ch hws hop next rest hcont ih =>
      exact cons_bind_eq_ok_iff_lexes hws (longest_operator_two hop hcont rest) ih
  | case4 ch hws hop next rest hcont ih =>
      have hlongest : Longest Lexeme [ch] (ch :: next :: rest) :=
        longest_operator_one hop fun d hd ↦ by
          cases Option.mem_some.mp hd
          simpa using hcont
      exact cons_bind_eq_ok_iff_lexes (s := next :: rest) hws hlongest ih
  | case5 ch hws hop =>
      have hlongest : Longest Lexeme [ch] ([ch] ++ []) := longest_operator_one hop (by simp)
      have h : _ ↔ Lexes ([ch] ++ []) tokens :=
        cons_bind_eq_ok_iff_lexes hws hlongest tokenize_nil_eq_ok_iff
      rwa [tokenize_nil] at h
  | case6 ch chars hws hop hword ih =>
      have hsplit : ch :: chars.takeWhile isWordChar ++ chars.dropWhile isWordChar =
          ch :: chars := by
        rw [List.cons_append, List.takeWhile_append_dropWhile]
      have h : _ ↔ Lexes (ch :: chars.takeWhile isWordChar ++ chars.dropWhile isWordChar) tokens :=
        cons_bind_eq_ok_iff_lexes hws (hsplit.symm ▸ longest_word hword chars) ih
      rwa [hsplit] at h
  | case7 ch chars hws hop hword =>
      have hno : ∀ s, ¬ Lexeme (ch :: s) := by
        intro s hl
        rcases hl.cons_cases with ⟨hc, -⟩ | ⟨hc, -⟩
        · exact hword hc
        · exact hop hc
      refine ⟨fun h ↦ by simp at h, fun h ↦ ?_⟩
      exact absurd h (Munch.not_cons (show ¬ Separator ch from hws) hno)

end Pwatch.Filter
