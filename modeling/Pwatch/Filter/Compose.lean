import Pwatch.Filter.Correctness
import Pwatch.Filter.Lossless

/-!
# Filters compose by text

Writing `or` or `and` between two filters gives a filter.  The lexer reads the two
texts and the joiner one after the other, the groups of the result are those of the
grammar's two nested sequences at the seam, and evaluation follows: `or` is the
disjunction, and `and` binds tighter than any `or` around it.  Which spelling of a
joiner is used does not matter anywhere in a filter.
-/

namespace Pwatch.Filter

open Text Grammar

variable {arch : Arch}

/-! ## Joiners -/

/-- A token that joins predicates or groups. -/
def IsJoiner (token : Str) : Prop := IsAnd token ∨ IsOr token

/-- The two tokens are the same, or spellings of the same joiner. -/
def SameJoiner (t t' : Str) : Prop := t = t' ∨ (IsAnd t ∧ IsAnd t') ∨ (IsOr t ∧ IsOr t')

theorem SameJoiner.symm {t t' : Str} (h : SameJoiner t t') : SameJoiner t' t :=
  h.imp Eq.symm (Or.imp And.symm And.symm)

theorem SameJoiner.isAnd {t t' : Str} (h : SameJoiner t t') (ht : IsAnd t) : IsAnd t' := by
  rcases h with rfl | ⟨-, h⟩ | ⟨h, -⟩
  · exact ht
  · exact h
  · exact absurd ht h.not_isAnd

theorem SameJoiner.isOr {t t' : Str} (h : SameJoiner t t') (ht : IsOr t) : IsOr t' := by
  rcases h with rfl | ⟨h, -⟩ | ⟨-, h⟩
  · exact ht
  · exact absurd h ht.not_isAnd
  · exact h

/-- Letter case does not make a word character. -/
theorem isWordChar_of_toLower {c : Char} (h : isWordChar c.toLower = true) :
    isWordChar c = true := by
  by_cases hc : c.isUpper = true
  · have halpha : c.isAlpha = true := by
      change (c.isUpper || c.isLower) = true
      rw [hc, Bool.true_or]
    change (c.isAlpha || c.isDigit || c == '_') = true
    rw [halpha, Bool.true_or, Bool.true_or]
  · rwa [toLower_of_not_isUpper hc] at h

/-- A token that is a word in lower case is a word. -/
theorem isWord_of_toAsciiLowercase {t : Str} (h : IsWord (toAsciiLowercase t)) : IsWord t := by
  refine ⟨fun hnil ↦ h.1 (by rw [hnil]; rfl), fun c hc ↦ ?_⟩
  exact isWordChar_of_toLower (h.2 c.toLower (List.mem_map_of_mem hc))

theorem IsJoiner.lexeme {token : Str} (h : IsJoiner token) : Lexeme token ∧ token ≠ [] := by
  have hword : ∀ {w : Str}, w ≠ [] → w.all isWordChar = true →
      toAsciiLowercase token = w → Lexeme token ∧ token ≠ [] := by
    intro w hne hw heq
    have htoken : IsWord token :=
      isWord_of_toAsciiLowercase (heq ▸ ⟨hne, List.all_eq_true.mp hw⟩)
    exact ⟨.inl htoken, htoken.1⟩
  rcases h with (h | rfl) | (h | rfl)
  · exact hword (by decide) (by decide) h
  · exact ⟨.inr (by decide), by decide⟩
  · exact hword (by decide) (by decide) h
  · exact ⟨.inr (by decide), by decide⟩

/-! ## No token of a predicate is a joiner -/

theorem RegName.not_isJoiner {token : Str} {reg : Nat} (h : RegName arch token reg) :
    ¬ IsJoiner token := by
  obtain ⟨hreg, hname⟩ := h
  have hall : ∀ i < arch.regsCount, toAsciiLowercase (arch.idToStr i) ≠ "and".toList ∧
      toAsciiLowercase (arch.idToStr i) ≠ "or".toList ∧
      toAsciiLowercase (arch.idToStr i) ≠ "&&".toList ∧
      toAsciiLowercase (arch.idToStr i) ≠ "||".toList := by
    cases arch <;> decide +kernel
  obtain ⟨hand, hor, hamp, hbar⟩ := hall reg hreg
  rw [← hname] at hand hor hamp hbar
  rintro ((h | rfl) | (h | rfl))
  · exact hand h
  · exact hamp rfl
  · exact hor h
  · exact hbar rfl

theorem Comparison.not_isJoiner {token : Str} {op : Operator} (h : Comparison token op) :
    ¬ IsJoiner token := by
  rintro ((h' | h') | (h' | h')) <;> cases h <;> exact absurd h' (by decide)

/-- A numeral begins with a digit. -/
theorem Value.head {token : Str} {v : UInt64} (h : Value token v) :
    ∃ c s, token = c :: s ∧ c.isDigit = true := by
  cases h with
  | hex => exact ⟨'0', _, rfl, rfl⟩
  | decimal hne hnum _ =>
      obtain ⟨c, s, rfl⟩ := List.exists_cons_of_ne_nil hne
      refine ⟨c, s, rfl, ?_⟩
      rw [← isSome_toDigit_ten]
      exact hnum c (by simp)

/-- No joiner begins with a digit. -/
theorem IsJoiner.not_isDigit {c : Char} {s : Str} (h : IsJoiner (c :: s)) :
    c.isDigit = false := by
  by_contra hdigit
  have hupper : ¬ c.isUpper = true := by
    simp only [Bool.not_eq_false, isDigit_iff] at hdigit
    rw [isUpper_iff]
    omega
  have hlower : toAsciiLowercase (c :: s) = c :: toAsciiLowercase s := by
    rw [toAsciiLowercase, List.map_cons, toLower_of_not_isUpper hupper]
    rfl
  rw [IsJoiner, IsAnd, IsOr, hlower] at h
  rcases h with (h | h) | (h | h)
  all_goals
    obtain ⟨rfl, -⟩ := List.cons.inj h
    exact hdigit rfl

theorem Value.not_isJoiner {token : Str} {v : UInt64} (h : Value token v) :
    ¬ IsJoiner token := by
  obtain ⟨c, s, rfl, hc⟩ := h.head
  intro hjoiner
  rw [hjoiner.not_isDigit] at hc
  cases hc

/-- **Joiners stand only between predicates.** -/
theorem PredicateDerives.not_isJoiner {tokens : List Str} {predicate : Predicate}
    (h : PredicateDerives arch tokens predicate) : ∀ t ∈ tokens, ¬ IsJoiner t := by
  have hamp : ¬ IsJoiner ['&'] := by
    rintro ((h | h) | (h | h)) <;> exact absurd h (by decide)
  cases h with
  | plain hreg hop hval =>
      simp [hreg.not_isJoiner, hop.not_isJoiner, hval.not_isJoiner]
  | masked hreg hmask hop hval =>
      simp [hreg.not_isJoiner, hmask.not_isJoiner, hop.not_isJoiner, hval.not_isJoiner, hamp]

/-! ## Spelling -/

/-- Respelling joiners changes no token that is none. -/
theorem eq_of_sameJoiner {tokens tokens' : List Str}
    (h : List.Forall₂ SameJoiner tokens tokens') (hno : ∀ t ∈ tokens, ¬ IsJoiner t) :
    tokens = tokens' := by
  induction h with
  | nil => rfl
  | @cons t t' ts ts' hsame _ ih =>
      have htail := ih fun u hu ↦ hno u (by simp [hu])
      rcases hsame with rfl | ⟨hand, -⟩ | ⟨hor, -⟩
      · rw [htail]
      · exact absurd (.inl hand) (hno t (by simp))
      · exact absurd (.inr hor) (hno t (by simp))

/-- Respelling joiners keeps a derivation. -/
theorem FilterDerives.respell {tokens tokens' : List Str} {groups : List (List Predicate)}
    (hsame : List.Forall₂ SameJoiner tokens tokens') (h : FilterDerives arch tokens groups) :
    FilterDerives arch tokens' groups := by
  have hpredicate : ∀ ts ts' predicate, List.Forall₂ SameJoiner ts ts' →
      PredicateDerives arch ts predicate → PredicateDerives arch ts' predicate := by
    intro ts ts' predicate hts hp
    rwa [← eq_of_sameJoiner hts hp.not_isJoiner]
  have hgroup : ∀ ts ts' group, List.Forall₂ SameJoiner ts ts' →
      GroupDerives arch ts group → GroupDerives arch ts' group := fun _ _ _ hts hg ↦
    SepBy.congr (fun _ _ hs ↦ hs.isAnd) hpredicate hts hg
  exact SepBy.congr (fun _ _ hs ↦ hs.isOr) hgroup hsame h

/-- Texts whose tokens differ in the spelling of joiners are the same filter. -/
theorem parse_respell {s t : Str} {ts ts' : List Str} (hs : Lexes s ts) (ht : Lexes t ts')
    (hsame : List.Forall₂ SameJoiner ts ts') {groups : List (List Predicate)}
    (h : parse arch s = .ok ⟨groups⟩) : parse arch t = .ok ⟨groups⟩ := by
  obtain ⟨us, hus, hderives⟩ := parse_eq_ok_iff.mp h
  obtain rfl := Munch.unique (fun _ s hc ↦ Separator.not_lexeme hc s) hs hus
  exact parse_eq_ok_iff.mpr ⟨ts', ht, hderives.respell hsame⟩

/-! ## The seam -/

/-- A joiner between whitespace is one token, whatever stands around it. -/
theorem lexes_joiner_iff {s t j : Str} {c d : Char} {tokens : List Str} (hj : IsJoiner j)
    (hc : Separator c) (hd : Separator d) :
    Lexes (s ++ c :: (j ++ d :: t)) tokens ↔
      ∃ ts us, tokens = ts ++ j :: us ∧ Lexes s ts ∧ Lexes t us :=
  Munch.surround_iff (fun _ ht ↦ ht.not_separator) hc hd hj.lexeme.1 hj.lexeme.2

/-- An `or` between two filters puts their groups one after the other. -/
theorem parse_or {a b j : Str} {c d : Char} {groupsA groupsB : List (List Predicate)}
    (ha : parse arch a = .ok ⟨groupsA⟩) (hb : parse arch b = .ok ⟨groupsB⟩) (hj : IsOr j)
    (hc : Separator c) (hd : Separator d) :
    parse arch (a ++ c :: (j ++ d :: b)) = .ok ⟨groupsA ++ groupsB⟩ := by
  obtain ⟨ts, hts, hA⟩ := parse_eq_ok_iff.mp ha
  obtain ⟨us, hus, hB⟩ := parse_eq_ok_iff.mp hb
  have hlex := (lexes_joiner_iff (.inr hj) hc hd).mpr ⟨ts, us, rfl, hts, hus⟩
  exact parse_eq_ok_iff.mpr ⟨_, hlex, SepBy.append hA hj hB⟩

/-- An `and` between two filters makes one group of the two groups next to it. -/
theorem parse_and {a b j : Str} {c d : Char} {before after : List (List Predicate)}
    {last first : List Predicate} (ha : parse arch a = .ok ⟨before ++ [last]⟩)
    (hb : parse arch b = .ok ⟨first :: after⟩) (hj : IsAnd j) (hc : Separator c)
    (hd : Separator d) :
    parse arch (a ++ c :: (j ++ d :: b)) = .ok ⟨before ++ (last ++ first) :: after⟩ := by
  obtain ⟨ts, hts, hA⟩ := parse_eq_ok_iff.mp ha
  obtain ⟨us, hus, hB⟩ := parse_eq_ok_iff.mp hb
  have hlex := (lexes_joiner_iff (.inl hj) hc hd).mpr ⟨ts, us, rfl, hts, hus⟩
  have hgroup : ∀ {ts us : List Str} {g h : List Predicate}, GroupDerives arch ts g →
      GroupDerives arch us h → GroupDerives arch (ts ++ j :: us) (g ++ h) :=
    fun hg hh ↦ SepBy.append hg hj hh
  exact parse_eq_ok_iff.mpr ⟨_, hlex, SepBy.join hgroup hA hB⟩

/-! ## Evaluation -/

/-- All predicates of a group are true. -/
def groupMatches (group : List Predicate) (data : SampleData) : Prop :=
  ∀ predicate ∈ group, predicate.matches data = true

theorem matches_iff {groups : List (List Predicate)} {data : SampleData} :
    (⟨groups⟩ : RegFilter).matches data = true ↔ ∃ g ∈ groups, groupMatches g data := by
  simp [RegFilter.matches, groupMatches]

theorem groupMatches_append {g h : List Predicate} {data : SampleData} :
    groupMatches (g ++ h) data ↔ groupMatches g data ∧ groupMatches h data :=
  List.forall_mem_append

/-! ## The result -/

/-- What `or` between two filters means. -/
structure OrComposes (arch : Arch) (a b : Str) (fa fb : RegFilter) : Prop where
  parse_eq : ∀ j c d, IsOr j → Separator c → Separator d →
    parse arch (a ++ c :: (j ++ d :: b)) = .ok ⟨fa.groups ++ fb.groups⟩
  matches_iff : ∀ data, (⟨fa.groups ++ fb.groups⟩ : RegFilter).matches data = true ↔
    fa.matches data = true ∨ fb.matches data = true

/-- What `and` between two filters means: the last group of the first one and the
first group of the second one become one group. -/
structure AndComposes (arch : Arch) (a b : Str) (fa fb : RegFilter)
    (before : List (List Predicate)) (last first : List Predicate)
    (after : List (List Predicate)) : Prop where
  groups_left : fa.groups = before ++ [last]
  groups_right : fb.groups = first :: after
  parse_eq : ∀ j c d, IsAnd j → Separator c → Separator d →
    parse arch (a ++ c :: (j ++ d :: b)) = .ok ⟨before ++ (last ++ first) :: after⟩
  matches_iff : ∀ data,
    (⟨before ++ (last ++ first) :: after⟩ : RegFilter).matches data = true ↔
      (∃ g ∈ before, groupMatches g data) ∨
        (groupMatches last data ∧ groupMatches first data) ∨ ∃ g ∈ after, groupMatches g data

/-- The spelling of the joiners does not matter: not of a joiner between whitespace in
any text, and not between any two texts with the same tokens otherwise. -/
structure SpellingFree (arch : Arch) : Prop where
  joiner : ∀ s t j j' c d, IsJoiner j → SameJoiner j j' → Separator c → Separator d →
    ∀ f, parse arch (s ++ c :: (j ++ d :: t)) = .ok f ↔
      parse arch (s ++ c :: (j' ++ d :: t)) = .ok f
  tokens : ∀ s t ts ts', tokenize s = .ok ts → tokenize t = .ok ts' →
    List.Forall₂ SameJoiner ts ts' → ∀ f, parse arch s = .ok f ↔ parse arch t = .ok f

theorem spellingFree (arch : Arch) : SpellingFree arch where
  joiner s t j j' c d hj hsame hc hd f := by
    have hj' : IsJoiner j' := hj.imp hsame.isAnd hsame.isOr
    have key : ∀ {j j' : Str}, IsJoiner j → IsJoiner j' → SameJoiner j j' →
        parse arch (s ++ c :: (j ++ d :: t)) = .ok f →
          parse arch (s ++ c :: (j' ++ d :: t)) = .ok f := by
      intro j j' hj hj' hsame h
      obtain ⟨tokens, hlex, -⟩ := parse_eq_ok_iff.mp h
      obtain ⟨ts, us, rfl, hts, hus⟩ := (lexes_joiner_iff hj hc hd).mp hlex
      have hlex' := (lexes_joiner_iff hj' hc hd).mpr ⟨ts, us, rfl, hts, hus⟩
      have hrefl : ∀ ts : List Str, List.Forall₂ SameJoiner ts ts := fun ts ↦
        List.forall₂_same.mpr fun _ _ ↦ .inl rfl
      exact parse_respell hlex hlex' (List.rel_append (hrefl ts) (.cons hsame (hrefl us))) h
    exact ⟨key hj hj' hsame, key hj' hj hsame.symm⟩
  tokens s t ts ts' hs ht hsame f := by
    have hs' := (tokenize_eq_ok_iff s ts).mp hs
    have ht' := (tokenize_eq_ok_iff t ts').mp ht
    have hsame' : List.Forall₂ SameJoiner ts' ts :=
      hsame.flip.imp fun _ _ h ↦ SameJoiner.symm h
    exact ⟨parse_respell hs' ht' hsame, parse_respell ht' hs' hsame'⟩

/-- **Filters compose by text.** -/
theorem compose {a b : Str} {fa fb : RegFilter} (ha : parse arch a = .ok fa)
    (hb : parse arch b = .ok fb) :
    OrComposes arch a b fa fb ∧
      (∃ before last first after, AndComposes arch a b fa fb before last first after) ∧
      SpellingFree arch := by
  obtain ⟨groupsA⟩ := fa
  obtain ⟨groupsB⟩ := fb
  refine ⟨⟨fun j c d hj hc hd ↦ parse_or ha hb hj hc hd, fun data ↦ ?_⟩, ?_, spellingFree arch⟩
  · simp only [matches_iff, List.mem_append, or_and_right, exists_or]
  · obtain ⟨ts, -, hA⟩ := parse_eq_ok_iff.mp ha
    obtain ⟨us, -, hB⟩ := parse_eq_ok_iff.mp hb
    obtain ⟨before, last, rfl⟩ := (List.eq_nil_or_concat' groupsA).resolve_left hA.ne_nil
    obtain ⟨first, after, rfl⟩ := List.exists_cons_of_ne_nil hB.ne_nil
    refine ⟨before, last, first, after, rfl, rfl,
      fun j c d hj hc hd ↦ parse_and ha hb hj hc hd, fun data ↦ ?_⟩
    simp only [matches_iff, List.mem_append, List.mem_cons, or_and_right, exists_or,
      exists_eq_left, groupMatches_append]

/-- With two groups on either side, `and` joins the two in the middle. -/
theorem compose_two :
    parse .x86_64 "ax=1 or bx=2".toList = .ok ⟨[[⟨0, none, .eq, 1⟩], [⟨1, none, .eq, 2⟩]]⟩ ∧
      parse .x86_64 "cx=3 or dx=4".toList = .ok ⟨[[⟨2, none, .eq, 3⟩], [⟨3, none, .eq, 4⟩]]⟩ ∧
      ∃ before last first after,
        AndComposes .x86_64 "ax=1 or bx=2".toList "cx=3 or dx=4".toList
          ⟨[[⟨0, none, .eq, 1⟩], [⟨1, none, .eq, 2⟩]]⟩
          ⟨[[⟨2, none, .eq, 3⟩], [⟨3, none, .eq, 4⟩]]⟩ before last first after := by
  have ha : parse .x86_64 "ax=1 or bx=2".toList =
      .ok ⟨[[⟨0, none, .eq, 1⟩], [⟨1, none, .eq, 2⟩]]⟩ := by decide +kernel
  have hb : parse .x86_64 "cx=3 or dx=4".toList =
      .ok ⟨[[⟨2, none, .eq, 3⟩], [⟨3, none, .eq, 4⟩]]⟩ := by decide +kernel
  exact ⟨ha, hb, (compose ha hb).2.1⟩

end Pwatch.Filter
