import Pwatch.Filter.Grammar

/-!
# The filter parser is exact

`RegFilter::parse` accepts the filter language and returns the one reading of its
input.  Predicates are sound and complete, the two levels of sequences are by the
rules for separated sequences, and the lexer is the maximal-munch reading.
-/

namespace Pwatch.Filter

open Text Grammar

variable {arch : Arch}

/-- No sign occurs in the token. -/
def Unsigned (token : Str) : Prop := '+' ∉ token

theorem Lexeme.unsigned {token : Str} (h : Lexeme token) : Unsigned token := by
  rcases h with ⟨-, hword⟩ | hop
  · intro hmem
    exact absurd (hword '+' hmem) (by decide)
  · intro hmem
    have hall : ∀ t ∈ operators, '+' ∉ t := by decide
    exact hall token hop hmem

theorem IsNumeral.unsigned {radix : Nat} {digits : Str} (h : IsNumeral radix digits) :
    Unsigned digits := h.not_mem (toDigit_plus radix)

theorem Value.unsigned {token : Str} {v : UInt64} (h : Value token v) : Unsigned token := by
  cases h with
  | decimal _ hnum _ => exact IsNumeral.unsigned hnum
  | hex hx _ hnum _ =>
      intro hmem
      have hmem' := List.mem_of_ne_of_mem (by rcases hx with rfl | rfl <;> decide)
        (List.mem_of_ne_of_mem (by decide) hmem)
      exact IsNumeral.unsigned hnum hmem'

/-! ## Predicates -/

/-- What `parse_predicate` consumes is a predicate. -/
theorem predicateRule_sound : (predicateRule arch).Sound Unsigned (PredicateDerives arch) := by
  intro p q predicate hvalid h
  obtain ⟨p₁, p₂, p₃, h₁, h₂, h₃, h₄⟩ := parsePredicate_eq_ok.mp h
  obtain ⟨rfl, r, hr, hreg⟩ := expect_eq_ok.mp h₁
  obtain ⟨-, o, ho, hop⟩ := expect_eq_ok.mp h₃
  obtain ⟨-, t, ht, hval⟩ := expect_eq_ok.mp h₄
  obtain ⟨reg, mask, op, value⟩ := predicate
  have hunsigned : ∀ u ∈ p.rest, Unsigned u := fun u hu ↦
    hvalid u (Cursor.mem_tokens_of_mem_rest hu)
  rcases parseMask_eq_ok.mp h₂ with ⟨rfl, rfl, -⟩ | ⟨amp, m, mask, rfl, hm, -, hkey, hmask⟩
  · have hrest : p.rest = r :: o :: t :: q.rest := by rw [hr, ho, ht]
    have hv := (parseValue_eq_ok (hunsigned t (by simp [hrest]))).mp hval
    exact ⟨[r, o, t], hrest,
      .plain (parseReg_eq_ok.mp hreg) (parseOperator_eq_ok.mp hop) hv⟩
  · obtain rfl := keyword_amp.mp hkey
    have hrest : p.rest = r :: ['&'] :: m :: o :: t :: q.rest := by rw [hr, hm, ho, ht]
    have hv := (parseValue_eq_ok (hunsigned t (by simp [hrest]))).mp hval
    have hm := (parseValue_eq_ok (hunsigned m (by simp [hrest]))).mp hmask
    exact ⟨[r, ['&'], m, o, t], hrest,
      .masked (parseReg_eq_ok.mp hreg) hm (parseOperator_eq_ok.mp hop) hv⟩

/-- `parse_predicate` finds every predicate. -/
theorem predicateRule_complete (follow : List Str → Prop) :
    (predicateRule arch).Complete (PredicateDerives arch) follow := by
  intro p ts us predicate hrest h _
  have hexpect : ∀ {β : Type} (message : Str) {parse : Str → Except Str β} {p : Parser} {t s}
      {b : β}, p.rest = t :: s → parse t = .ok b →
        expect message parse p = .ok (b, p.advance) ∧ p.advance.rest = s := by
    intro β message parse p t s b hp hb
    have hadv := Cursor.rest_advance hp
    exact ⟨expect_eq_ok.mpr ⟨rfl, t, by rw [hp, hadv], hb⟩, hadv⟩
  cases h with
  | @plain r o t reg op value hreg hop hval =>
      obtain ⟨h₁, hr₁⟩ := hexpect "expected register name".toList hrest (parseReg_eq_ok.mpr hreg)
      obtain ⟨h₃, hr₃⟩ := hexpect "expected comparison operator".toList hr₁
        (parseOperator_eq_ok.mpr hop)
      obtain ⟨h₄, hr₄⟩ := hexpect "expected comparison value".toList hr₃
        ((parseValue_eq_ok hval.unsigned).mpr hval)
      have hamp : ∀ u ∈ p.advance.rest.head?, keyword ['&'] u = false := by
        intro u hu
        obtain rfl : o = u := by simpa [hr₁] using hu
        exact hop.ne_amp
      exact ⟨_, parsePredicate_eq_ok.mpr ⟨_, _, _, h₁, parseMask_of_not_amp hamp, h₃, h₄⟩, hr₄⟩
  | @masked r m o t reg mask op value hreg hmask hop hval =>
      obtain ⟨h₁, hr₁⟩ := hexpect "expected register name".toList hrest (parseReg_eq_ok.mpr hreg)
      have hr₂ := Cursor.rest_advance (Cursor.rest_advance hr₁)
      obtain ⟨h₃, hr₃⟩ := hexpect "expected comparison operator".toList hr₂
        (parseOperator_eq_ok.mpr hop)
      obtain ⟨h₄, hr₄⟩ := hexpect "expected comparison value".toList hr₃
        ((parseValue_eq_ok hval.unsigned).mpr hval)
      have h₂ : parseMask p.advance = .ok (some mask, p.advance.advance.advance) :=
        parseMask_eq_ok.mpr (.inr ⟨['&'], m, mask, rfl, by rw [hr₁, hr₂]; rfl, rfl,
          keyword_amp.mpr rfl, (parseValue_eq_ok hmask.unsigned).mpr hmask⟩)
      exact ⟨_, parsePredicate_eq_ok.mpr ⟨_, _, _, h₁, h₂, h₃, h₄⟩, hr₄⟩

/-! ## Groups and filters -/

theorem isSep_andTests_eq : Rule.IsSep andTests = IsAnd := funext fun t ↦ propext (isSep_andTests t)

theorem isSep_orTests_eq : Rule.IsSep orTests = IsOr := funext fun t ↦ propext (isSep_orTests t)

theorem parseAndGroup_sound : (parseAndGroup arch).Sound Unsigned (GroupDerives arch) := by
  have h : (parseAndGroup arch).Sound Unsigned _ := predicateRule_sound.sepBy
  rwa [isSep_andTests_eq] at h

theorem parseFilter_sound : (parseFilter arch).Sound Unsigned (FilterDerives arch) := by
  have h : (parseFilter arch).Sound Unsigned _ := parseAndGroup_sound.sepBy
  rwa [isSep_orTests_eq] at h

/-- A group is found where no `and` follows it. -/
theorem parseAndGroup_complete (follow : List Str → Prop) :
    (parseAndGroup arch).Complete (GroupDerives arch) fun us ↦
      follow us ∧ Rule.NoSep andTests us := by
  have h : (parseAndGroup arch).Complete _ fun us ↦ follow us ∧ Rule.NoSep andTests us :=
    (predicateRule_complete _).sepBy
  rwa [isSep_andTests_eq] at h

/-- A filter is found where it is the whole rest of the tokens. -/
theorem parseFilter_complete : (parseFilter arch).Complete (FilterDerives arch) (· = []) := by
  -- after a group comes an `or` or the end, and neither is an `and`
  have hgroup : (parseAndGroup arch).Complete (GroupDerives arch)
      fun us ↦ us = [] ∨ ∃ t ∈ us.head?, Rule.IsSep orTests t := by
    intro p ts us group hrest h hfollow
    refine parseAndGroup_complete (fun _ ↦ True) hrest h ⟨trivial, ?_⟩
    intro t ht hand
    rcases hfollow with rfl | ⟨u, hu, hor⟩
    · cases ht
    · obtain rfl : t = u := Option.mem_unique ht hu
      exact ((isSep_orTests t).mp hor).not_isAnd ((isSep_andTests t).mp hand)
  have hfilter : (parseFilter arch).Complete (SepBy (Rule.IsSep orTests) (GroupDerives arch))
      fun us ↦ us = [] ∧ Rule.NoSep orTests us := hgroup.sepBy
  rw [isSep_orTests_eq] at hfilter
  rintro p ts us groups hrest h rfl
  exact hfilter hrest h ⟨rfl, by simp [Rule.NoSep]⟩

/-! ## `RegFilter::parse` -/

theorem parse_of_lex_error {input message : Str} (h : tokenize input = .error message) :
    parse arch input = .error (.bail message) := by
  rw [parse, h]
  rfl

/-- The parser needs a token. -/
theorem ne_nil_of_run {tokens : List Str} {groups : List (List Predicate)} {parser : Parser}
    (h : (parseFilter arch).run ⟨tokens, 0⟩ = .ok (groups, parser)) : tokens ≠ [] := by
  rintro rfl
  have hbefore := (parseFilter arch).before h
  have hle := hbefore.le
  rw [hbefore.tokens_eq] at hle
  exact Nat.not_succ_le_zero _ (Nat.lt_of_lt_of_le hbefore.lt hle)

theorem parse_of_rule_error {input message : Str} {tokens : List Str}
    (h : tokenize input = .ok tokens)
    (hrun : (parseFilter arch).run ⟨tokens, 0⟩ = .error message) :
    ∃ message', parse arch input = .error (.bail message') := by
  rw [parse, h]
  cases tokens with
  | nil => exact ⟨_, rfl⟩
  | cons t ts =>
      refine ⟨message, ?_⟩
      simp [Except.mapError, hrun, bind, Except.bind]

/-- After the rule has succeeded, the filter is complete or a token is left over; the
token is there to be shown because the cursor is not past the end. -/
theorem parse_of_run {input : Str} {tokens : List Str} {groups : List (List Predicate)}
    {parser : Parser} (h : tokenize input = .ok tokens)
    (hrun : (parseFilter arch).run ⟨tokens, 0⟩ = .ok (groups, parser)) :
    (parser.rest = [] ∧ parse arch input = .ok ⟨groups⟩) ∨
      parser.rest ≠ [] ∧
        ∃ token, parse arch input = .error (.bail ("unexpected token: ".toList ++ token)) := by
  have hne : tokens.isEmpty = false := List.isEmpty_eq_false_iff.mpr (ne_nil_of_run hrun)
  have hle : parser.pos ≤ parser.tokens.length := ((parseFilter arch).before hrun).le
  rw [parse, h]
  simp only [Except.mapError, hrun, bind, Except.bind, hne, Bool.false_eq_true, if_false]
  by_cases hpos : parser.pos = parser.tokens.length
  · refine .inl ⟨List.drop_eq_nil_iff.mpr hpos.ge, ?_⟩
    simp [hpos, pure, Except.pure]
  · have hlt : parser.pos < parser.tokens.length := Nat.lt_of_le_of_ne hle hpos
    refine .inr ⟨fun hnil ↦ ?_, parser.tokens[parser.pos], ?_⟩
    · exact absurd (List.drop_eq_nil_iff.mp hnil) (Nat.not_le.mpr hlt)
    · simp [hpos, List.getElem?_eq_getElem hlt]

/-- The stages of a successful parse. -/
theorem parse_eq_ok {input : Str} {groups : List (List Predicate)} :
    parse arch input = .ok ⟨groups⟩ ↔
      ∃ tokens parser, tokenize input = .ok tokens ∧
        (parseFilter arch).run ⟨tokens, 0⟩ = .ok (groups, parser) ∧ parser.rest = [] := by
  constructor
  · intro hparse
    cases h : tokenize input with
    | error message => simp [parse_of_lex_error h] at hparse
    | ok tokens =>
        cases hrun : (parseFilter arch).run ⟨tokens, 0⟩ with
        | error message =>
            obtain ⟨message', herr⟩ := parse_of_rule_error h hrun
            simp [herr] at hparse
        | ok result =>
            obtain ⟨groups', parser⟩ := result
            rcases parse_of_run h hrun with ⟨hrest, hok⟩ | ⟨-, token, herr⟩
            · obtain rfl : groups' = groups := by simpa [hok] using hparse
              exact ⟨tokens, parser, rfl, hrun, hrest⟩
            · simp [herr] at hparse
  · rintro ⟨tokens, parser, h, hrun, hrest⟩
    rcases parse_of_run h hrun with ⟨-, hok⟩ | ⟨hne, -⟩
    · exact hok
    · exact absurd hrest hne

/-- A parse that does not succeed returns an error. -/
theorem parse_ok_or_bail (arch : Arch) (input : Str) :
    (∃ groups, parse arch input = .ok ⟨groups⟩) ∨
      ∃ message, parse arch input = .error (.bail message) := by
  cases h : tokenize input with
  | error message => exact .inr ⟨_, parse_of_lex_error h⟩
  | ok tokens =>
      cases hrun : (parseFilter arch).run ⟨tokens, 0⟩ with
      | error message => exact .inr (parse_of_rule_error h hrun)
      | ok result =>
          rcases parse_of_run h hrun with ⟨-, hok⟩ | ⟨-, token, herr⟩
          · exact .inl ⟨_, hok⟩
          · exact .inr ⟨_, herr⟩

/-- The groups of a parse are those the grammar derives. -/
theorem parse_eq_ok_iff {input : Str} {groups : List (List Predicate)} :
    parse arch input = .ok ⟨groups⟩ ↔
      ∃ tokens, Lexes input tokens ∧ FilterDerives arch tokens groups := by
  rw [parse_eq_ok]
  constructor
  · rintro ⟨tokens, parser, h, hrun, hrest⟩
    have hlex : Lexes input tokens := (tokenize_eq_ok_iff input tokens).mp h
    have hvalid : ∀ t ∈ tokens, Unsigned t := fun t ht ↦ (Munch.lexeme_of_mem hlex ht).unsigned
    obtain ⟨ts, hts, hderives⟩ := parseFilter_sound hvalid hrun
    rw [hrest, List.append_nil] at hts
    obtain rfl : tokens = ts := hts
    exact ⟨tokens, hlex, hderives⟩
  · rintro ⟨tokens, hlex, hderives⟩
    have hstart : (⟨tokens, 0⟩ : Parser).rest = tokens ++ [] := by simp [Cursor.rest]
    obtain ⟨parser, hrun, hrest⟩ := parseFilter_complete hstart hderives rfl
    exact ⟨tokens, parser, (tokenize_eq_ok_iff input tokens).mpr hlex, hrun, hrest⟩

/-- **`RegFilter::parse` is exact.**  It succeeds on the filters of the grammar with
the groups they derive, no input has two readings, and on every other input it
returns an error: the cursor stays in the token list, so the index in the message
for a left-over token is in range. -/
theorem parse_exact (arch : Arch) (input : Str) :
    (∀ groups, parse arch input = .ok ⟨groups⟩ ↔
      ∃ tokens, Lexes input tokens ∧ FilterDerives arch tokens groups) ∧
    (∀ tokens tokens' groups groups', Lexes input tokens → FilterDerives arch tokens groups →
      Lexes input tokens' → FilterDerives arch tokens' groups' →
        tokens = tokens' ∧ groups = groups') ∧
    ((∀ tokens groups, Lexes input tokens → ¬ FilterDerives arch tokens groups) →
      ∃ message, parse arch input = .error (.bail message)) ∧
    parse arch input ≠ .error .panic ∧
    ∀ tokens groups parser, (parseFilter arch).run ⟨tokens, 0⟩ = .ok (groups, parser) →
      parser.tokens = tokens ∧ parser.pos ≤ tokens.length := by
  refine ⟨fun groups ↦ parse_eq_ok_iff, ?_, ?_, ?_, ?_⟩
  · intro tokens tokens' groups groups' hlex hderives hlex' hderives'
    have htokens : tokens = tokens' :=
      Munch.unique (fun c s hc ↦ Separator.not_lexeme hc s) hlex hlex'
    have hparse := parse_eq_ok_iff.mpr ⟨tokens, hlex, hderives⟩
    have hparse' := parse_eq_ok_iff.mpr ⟨tokens', hlex', hderives'⟩
    exact ⟨htokens, by simpa [hparse] using hparse'⟩
  · intro hno
    rcases parse_ok_or_bail arch input with ⟨groups, hok⟩ | hbail
    · obtain ⟨tokens, hlex, hderives⟩ := parse_eq_ok_iff.mp hok
      exact absurd hderives (hno tokens groups hlex)
    · exact hbail
  · intro hpanic
    rcases parse_ok_or_bail arch input with ⟨groups, hok⟩ | ⟨message, herr⟩
    · simp [hok] at hpanic
    · simp [herr] at hpanic
  · intro tokens groups parser hrun
    have hbefore := (parseFilter arch).before hrun
    have htokens : parser.tokens = tokens := hbefore.tokens_eq
    exact ⟨htokens, htokens ▸ hbefore.le⟩

end Pwatch.Filter
