import Pwatch.Filter.Lexer
import Pwatch.Grammar.Layout

/-!
# The lexer loses nothing

What the tokens of `tokenize` keep of the input: every character but the whitespace,
in words that are as long as the input lets them be.  Whitespace between two tokens
changes nothing, so reading the tokens back gives the tokens, and the only inputs
that are refused hold a character of no token.
-/

namespace Pwatch.Filter

open Text Grammar

/-- What holds of the characters of the operators. -/
theorem of_mem_operators {p : Char → Bool} (h : operators.all (fun t ↦ t.all p) = true) {t : Str}
    (ht : t ∈ operators) : ∀ c ∈ t, p c = true :=
  List.all_eq_true.mp (List.all_eq_true.mp h t ht)

/-- No lexeme contains whitespace. -/
theorem Lexeme.not_separator {t : Str} (h : Lexeme t) : ∀ c ∈ t, ¬ Separator c := by
  intro c hc
  rcases h with ⟨-, hword⟩ | hop
  · simp [Separator, not_isWhitespace_of_isWordChar (hword c hc)]
  · have hblack := of_mem_operators (p := fun c ↦ !isWhitespace c) (by decide) hop c hc
    simpa [Separator] using hblack

/-- No operator contains a word character. -/
theorem not_isWordChar_of_mem_operators {t : Str} (h : t ∈ operators) :
    ∀ c ∈ t, isWordChar c = false := by
  simpa using of_mem_operators (p := fun c ↦ !isWordChar c) (by decide) h

/-- A lexeme with a word character is a word. -/
theorem Lexeme.isWord {t : Str} (h : Lexeme t) {c : Char} (hc : c ∈ t)
    (hword : isWordChar c = true) : IsWord t := by
  rcases h with h | h
  · exact h
  · simp [not_isWordChar_of_mem_operators h c hc] at hword

/-- The characters an input may be made of. -/
def isFilterChar (c : Char) : Bool := isWhitespace c || isWordChar c || isOperatorChar c

/-- Every character of a lexeme is one of a word or of an operator. -/
theorem Lexeme.isFilterChar {t : Str} (h : Lexeme t) : ∀ c ∈ t, isFilterChar c = true := by
  intro c hc
  rcases h with ⟨-, hword⟩ | hop
  · simp [Filter.isFilterChar, hword c hc]
  · exact of_mem_operators (by decide) hop c hc

/-! ## Words are maximal -/

/-- The word stands between `before` and `after` with no further word character next
to it. -/
structure MaximalWord (before w after : Str) : Prop where
  isWord : IsWord w
  left : ∀ c ∈ before.getLast?, isWordChar c = false
  right : ∀ c ∈ after.head?, isWordChar c = false

/-- What follows the longest lexeme is not a word character when the lexeme is a word. -/
theorem head_of_longest_word {w s : Str} (h : Longest Lexeme w (w ++ s)) (hw : IsWord w) :
    ∀ c ∈ s.head?, isWordChar c = false := by
  intro c hc
  obtain ⟨s', rfl⟩ := List.head?_eq_some_iff.mp hc
  by_contra hword
  have hlonger : IsWord (w ++ [c]) := by
    refine ⟨by simp, fun d hd ↦ ?_⟩
    rcases List.mem_append.mp hd with hd | hd
    · exact hw.2 d hd
    · rw [List.mem_singleton.mp hd]
      simpa using hword
  have hle := h.longest (w ++ [c]) (.inl hlonger) ⟨s', by simp⟩
  simp at hle

/-- **Every word of the reading is maximal** at the place where it stands. -/
theorem Lexes.maximalWord {input : Str} {as bs : List Str} {w : Str}
    (h : Lexes input (as ++ w :: bs)) (hw : IsWord w) :
    ∃ before after, input = before ++ w ++ after ∧ Layout Separator before as ∧
      Layout Separator after bs ∧ MaximalWord before w after := by
  change Munch Separator Lexeme input (as ++ w :: bs) at h
  generalize htokens : as ++ w :: bs = tokens at h
  induction h generalizing as with
  | nil => simp at htokens
  | @skip c s tokens hc _ ih =>
      obtain ⟨before, after, rfl, hbefore, hafter, hmax⟩ := ih htokens
      refine ⟨c :: before, after, rfl, .skip hc hbefore, hafter, ⟨hw, ?_, hmax.right⟩⟩
      intro d hd
      rcases before.eq_nil_or_concat with rfl | ⟨l, e, rfl⟩
      · obtain rfl : c = d := by simpa using hd
        by_contra hword
        have hno := not_isWhitespace_of_isWordChar (by simpa using hword)
        exact absurd hc (by simp [Separator, hno])
      · refine hmax.left d ?_
        simpa [List.getLast?_cons] using hd
  | @token t s tokens ht hm ih =>
      cases as with
      | nil =>
          obtain ⟨rfl, rfl⟩ := List.cons.inj htokens
          exact ⟨[], s, rfl, .nil, hm.layout, ⟨hw, by simp, head_of_longest_word ht hw⟩⟩
      | cons a as =>
          obtain ⟨rfl, htail⟩ := List.cons.inj htokens
          obtain ⟨before, after, rfl, hbefore, hafter, hmax⟩ := ih htail
          refine ⟨a ++ before, after, by simp, .token ht.ne_nil hbefore, hafter,
            ⟨hw, ?_, hmax.right⟩⟩
          intro d hd
          rcases before.eq_nil_or_concat with rfl | ⟨l, e, rfl⟩
          · -- the token in front touches the word, so it cannot end like a word
            rw [List.append_nil] at hd
            by_contra hword
            have ha : IsWord a :=
              ht.isLexeme.isWord (List.mem_of_getLast? hd) (by simpa using hword)
            obtain ⟨c, w', rfl⟩ := List.exists_cons_of_ne_nil hw.1
            have hhead := head_of_longest_word ht ha c (by simp)
            rw [hw.2 c (by simp)] at hhead
            cases hhead
          · refine hmax.left d ?_
            simpa using hd

/-! ## What is refused -/

theorem find?_dropWhile {p q : Char → Bool} (hpq : ∀ c, p c = true → q c = false) (s : Str) :
    (s.dropWhile p).find? q = s.find? q := by
  induction s with
  | nil => rfl
  | cons c s ih =>
      by_cases hc : p c = true
      · rw [List.dropWhile_cons, if_pos hc, ih, List.find?_cons_of_neg (by simp [hpq c hc])]
      · rw [List.dropWhile_cons, if_neg hc]

theorem cons_bind_eq_error {x : Except Str (List Str)} {t message : Str} :
    (do return t :: (← x)) = Except.error message ↔ x = .error message := by
  cases x <;> simp [bind, Except.bind, pure, Except.pure]

/-- The character that continues an operator is one of an operator. -/
theorem isOperatorChar_of_continuesOperator {c d : Char} (hc : isOperatorChar c = true)
    (hd : continuesOperator c d = true) : isOperatorChar d = true := by
  exact of_mem_operators (by decide) (mem_operators_two hc hd) d (by simp)

/-- **The lexer fails at the first character of no token**, and names it. -/
theorem tokenize_eq_error_iff (input message : Str) :
    tokenize input = .error message ↔
      ∃ c, input.find? (fun c ↦ !isFilterChar c) = some c ∧
        message = "unexpected character in filter: ".toList ++ [c] := by
  fun_induction tokenize input with
  | case1 => simp
  | case2 ch chars hws ih =>
      rw [ih, List.find?_cons_of_neg (by simp [isFilterChar, hws])]
  | case3 ch hws hop next rest hcont ih =>
      have hnext := isOperatorChar_of_continuesOperator hop hcont
      rw [cons_bind_eq_error, ih, List.find?_cons_of_neg (by simp [isFilterChar, hop]),
        List.find?_cons_of_neg (by simp [isFilterChar, hnext])]
  | case4 ch hws hop next rest hcont ih =>
      rw [cons_bind_eq_error, ih,
        List.find?_cons_of_neg (a := ch) (by simp [isFilterChar, hop])]
  | case5 ch hws hop => simp [isFilterChar, hop]
  | case6 ch chars hws hop hword ih =>
      have hdrop : ∀ c, isWordChar c = true → (!isFilterChar c) = false := fun c hc ↦ by
        simp [isFilterChar, hc]
      rw [cons_bind_eq_error, ih, find?_dropWhile hdrop,
        List.find?_cons_of_neg (by simp [isFilterChar, hword])]
  | case7 ch chars hws hop hword =>
      rw [List.find?_cons_of_pos (by simp [isFilterChar, hws, hop, hword])]
      simp [eq_comm]

/-! ## The result -/

/-- What the tokens of an input keep of it. -/
structure Lossless (input : Str) (tokens : List Str) : Prop where
  /-- The tokens are the input without its whitespace. -/
  flatten_eq : tokens.flatten = input.filter fun c ↦ !isWhitespace c
  /-- A token is not empty, and a word or an operator. -/
  isToken : ∀ t ∈ tokens, t ≠ [] ∧ (IsWord t ∨ t ∈ operators)
  /-- A word is maximal at its place among the tokens. -/
  maximal : ∀ as w bs, tokens = as ++ w :: bs → IsWord w →
    ∃ before after, input = before ++ w ++ after ∧ Layout Separator before as ∧
      Layout Separator after bs ∧ MaximalWord before w after
  /-- Joined by single spaces the tokens are read as themselves. -/
  rejoin : tokenize ([' '].intercalate tokens) = .ok tokens
  /-- There is a boundary between any two tokens. -/
  boundary : ∀ as bs, tokens = as ++ bs → ∃ s t, input = s ++ t ∧ Layout Separator s as
  /-- Whitespace added at a boundary does not change the tokens. -/
  insert : ∀ as bs s t, tokens = as ++ bs → input = s ++ t → Layout Separator s as →
    ∀ space, Blank space → tokenize (s ++ space ++ t) = .ok tokens

/-- **The lexer is lossless and stable**, and it refuses exactly the inputs with a
character that is neither whitespace nor one of a word or an operator. -/
theorem tokenize_lossless (input : Str) :
    (∀ tokens, tokenize input = .ok tokens → Lossless input tokens) ∧
    ((∃ message, tokenize input = .error message) ↔
      ∃ c ∈ input, isWhitespace c = false ∧ isWordChar c = false ∧ isOperatorChar c = false) := by
  have hno : ∀ t, Lexeme t → ∀ c ∈ t, ¬ Separator c := fun t ht ↦ ht.not_separator
  constructor
  · intro tokens htokens
    have hlex : Munch Separator Lexeme input tokens := (tokenize_eq_ok_iff _ _).mp htokens
    have hlexeme : ∀ t ∈ tokens, Lexeme t ∧ t ≠ [] := fun t ht ↦
      ⟨hlex.lexeme_of_mem ht, hlex.ne_nil_of_mem ht⟩
    exact {
      flatten_eq := by
        refine hlex.layout.flatten_eq fun t ht c hc ↦ ?_
        simpa [Separator] using (hlexeme t ht).1.not_separator c hc
      isToken := fun t ht ↦ ⟨(hlexeme t ht).2, (hlexeme t ht).1⟩
      maximal := by
        rintro as w bs rfl hw
        exact Lexes.maximalWord hlex hw
      rejoin := by
        rw [tokenize_eq_ok_iff]
        exact Munch.intercalate hno (show Separator ' ' from rfl) hlexeme
      boundary := by
        rintro as bs rfl
        obtain ⟨s, t, hst, hs, -⟩ := hlex.exists_boundary
        exact ⟨s, t, hst, hs⟩
      insert := by
        rintro as bs s t rfl rfl hs space hspace
        rw [tokenize_eq_ok_iff]
        exact Munch.insert hno hspace hs hlex }
  · simp only [tokenize_eq_error_iff]
    constructor
    · rintro ⟨-, c, hfind, -⟩
      have hc := List.find?_some hfind
      simp only [isFilterChar, Bool.not_or, Bool.and_eq_true, Bool.not_eq_true'] at hc
      exact ⟨c, List.mem_of_find?_eq_some hfind, hc.1.1, hc.1.2, hc.2⟩
    · rintro ⟨c, hmem, hws, hword, hop⟩
      have hsome : (input.find? fun c ↦ !isFilterChar c).isSome = true :=
        List.find?_isSome.mpr ⟨c, hmem, by simp [isFilterChar, hws, hword, hop]⟩
      obtain ⟨d, hd⟩ := Option.isSome_iff_exists.mp hsome
      exact ⟨_, d, hd, rfl⟩

end Pwatch.Filter
