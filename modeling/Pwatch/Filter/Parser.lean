import Pwatch.Arch
import Pwatch.Hit
import Pwatch.Text.Number
import Pwatch.Grammar.Cursor
import Pwatch.Filter.Lexer

/-!
# Register filters

The data types of `src/filter.rs`, its recursive-descent parser and `matches`.
The parser is compiled against the register table of a target, which is the
parameter `arch`.
-/

namespace Pwatch.Filter

open Text Grammar

inductive Operator
  | eq
  | ne
  | gt
  | ge
  | lt
  | le
deriving DecidableEq, Repr

structure Predicate where
  reg : Nat
  mask : Option UInt64
  op : Operator
  value : UInt64
deriving DecidableEq, Repr

/-- A filter in disjunctive form: some group has all its predicates true. -/
structure RegFilter where
  groups : List (List Predicate)
deriving DecidableEq, Repr

/-- How `RegFilter::parse` fails: with an error, or by indexing past the tokens. -/
inductive Failure
  | bail (message : Str)
  | panic
deriving DecidableEq, Repr

abbrev Parser := Cursor Str

/-! ## Single tokens -/

/-- `parse_reg`: the first index of the register table with this name. -/
def parseReg (arch : Arch) (name : Str) : Except Str Nat :=
  match (List.range arch.regsCount).find? fun idx ↦ eqIgnoreAsciiCase (arch.idToStr idx) name with
  | some idx => .ok idx
  | none => .error ("unknown register in filter: ".toList ++ name)

/-- `parse_operator`. -/
def parseOperator (token : Str) : Except Str Operator :=
  match token with
  | ['='] | ['=', '='] => .ok .eq
  | ['!', '='] => .ok .ne
  | ['>'] => .ok .gt
  | ['>', '='] => .ok .ge
  | ['<'] => .ok .lt
  | ['<', '='] => .ok .le
  | _ => .error ("invalid comparison operator: ".toList ++ token)

/-- `parse_value`. -/
def parseValue (token : Str) : Except Str UInt64 :=
  match (stripPrefix ['0', 'x'] token).or (stripPrefix ['0', 'X'] token) with
  | some hex => (fromStrRadix 16 hex).mapError IntErrorKind.message
  | none => (fromStrRadix 10 token).mapError IntErrorKind.message

/-- The test of `consume`. -/
def keyword (expected : Str) : Str → Bool := fun token ↦ eqIgnoreAsciiCase token expected

/-- `self.next().ok_or_else(..)?` handed to one of the functions above. -/
def expect {β : Type} (message : Str) (parse : Str → Except Str β) (p : Parser) :
    Except Str (β × Parser) :=
  match p.next with
  | none => .error message
  | some (token, p) => do return (← parse token, p)

theorem expect_eq_ok {β : Type} {message : Str} {parse : Str → Except Str β} {p q : Parser}
    {b : β} : expect message parse p = .ok (b, q) ↔
      q = p.advance ∧ ∃ token, p.rest = token :: q.rest ∧ parse token = .ok b := by
  constructor
  · intro h
    unfold expect at h
    split at h
    · simp at h
    · rename_i token p' hnext
      obtain ⟨rfl, hrest⟩ := Cursor.next_eq_some hnext
      cases hparse : parse token with
      | error e => simp [hparse, bind, Except.bind] at h
      | ok b' =>
          rw [hparse] at h
          obtain ⟨rfl, rfl⟩ := Prod.mk.inj (Except.ok.inj h)
          exact ⟨rfl, token, hrest, hparse⟩
  · rintro ⟨rfl, token, hrest, hparse⟩
    rw [expect, Cursor.next_of_rest hrest]
    simp only [hparse]
    rfl

theorem expect_before {β : Type} {message : Str} {parse : Str → Except Str β} {p q : Parser}
    {b : β} (h : expect message parse p = .ok (b, q)) : p.Before q := by
  obtain ⟨rfl, token, hrest, -⟩ := expect_eq_ok.mp h
  exact Cursor.before_advance hrest

/-! ## Predicates and the two sequences -/

/-- The optional `& value` of `parse_predicate`. -/
def parseMask (p : Parser) : Except Str (Option UInt64 × Parser) :=
  match p.consume (keyword ['&']) with
  | (true, p) => do
      let (mask, p) ← expect "expected mask value after '&'".toList parseValue p
      return (some mask, p)
  | (false, p) => return (none, p)

/-- `parse_predicate`. -/
def parsePredicate (arch : Arch) (p : Parser) : Except Str (Predicate × Parser) := do
  let (reg, p) ← expect "expected register name".toList (parseReg arch) p
  let (mask, p) ← parseMask p
  let (op, p) ← expect "expected comparison operator".toList parseOperator p
  let (value, p) ← expect "expected comparison value".toList parseValue p
  return (⟨reg, mask, op, value⟩, p)

theorem bind_eq_ok {β γ : Type} {x : Except Str β} {f : β → Except Str γ} {c : γ} :
    (x >>= f) = .ok c ↔ ∃ b, x = .ok b ∧ f b = .ok c := by
  cases x with
  | error e => simp [bind, Except.bind]
  | ok b => simp [bind, Except.bind]

theorem parseMask_of_not_amp {p : Parser} (h : ∀ t ∈ p.rest.head?, keyword ['&'] t = false) :
    parseMask p = .ok (none, p) := by
  have hfalse : p.consume (keyword ['&']) = (false, p) := by
    cases hrest : p.rest with
    | nil => exact Cursor.consume_of_nil hrest _
    | cons t s =>
        rw [Cursor.consume_of_rest hrest, h t (by simp [hrest])]
        rfl
  rw [parseMask, hfalse]
  rfl

/-- The two ways to read a mask. -/
theorem parseMask_eq_ok {p q : Parser} {mask : Option UInt64} :
    parseMask p = .ok (mask, q) ↔
      (mask = none ∧ q = p ∧ ∀ t ∈ p.rest.head?, keyword ['&'] t = false) ∨
      ∃ amp token m, mask = some m ∧ p.rest = amp :: token :: q.rest ∧
        q = p.advance.advance ∧ keyword ['&'] amp = true ∧ parseValue token = .ok m := by
  by_cases hamp : ∀ t ∈ p.rest.head?, keyword ['&'] t = false
  · rw [parseMask_of_not_amp hamp]
    constructor
    · intro h
      obtain ⟨rfl, rfl⟩ := Prod.mk.inj (Except.ok.inj h)
      exact .inl ⟨rfl, rfl, hamp⟩
    · rintro (⟨rfl, rfl, -⟩ | ⟨amp, token, m, -, hrest, -, hkey, -⟩)
      · rfl
      · simp [hamp amp (by simp [hrest])] at hkey
  · obtain ⟨amp, s, hrest, hkey⟩ : ∃ amp s, p.rest = amp :: s ∧ keyword ['&'] amp = true := by
      cases hrest : p.rest with
      | nil => simp [hrest] at hamp
      | cons t s => exact ⟨t, s, rfl, by simpa [hrest] using hamp⟩
    have hadv : p.advance.rest = s := Cursor.rest_advance hrest
    rw [parseMask, Cursor.consume_of_rest hrest, if_pos hkey]
    simp only [bind_eq_ok, Prod.exists, expect_eq_ok, hadv]
    constructor
    · rintro ⟨m, q', ⟨rfl, token, hs, hval⟩, h⟩
      obtain ⟨rfl, rfl⟩ := Prod.mk.inj (Except.ok.inj h)
      exact .inr ⟨amp, token, m, rfl, by rw [hrest, hs], rfl, hkey, hval⟩
    · rintro (⟨-, -, h⟩ | ⟨amp', token, m, rfl, hs, rfl, -, hval⟩)
      · exact absurd h hamp
      · rw [hrest] at hs
        exact ⟨m, _, ⟨rfl, token, (List.cons.inj hs).2, hval⟩, rfl⟩

theorem parseMask_le {p q : Parser} {mask : Option UInt64} (h : parseMask p = .ok (mask, q)) :
    q = p ∨ p.Before q := by
  rcases parseMask_eq_ok.mp h with ⟨-, rfl, -⟩ | ⟨amp, token, m, -, hrest, rfl, -⟩
  · exact .inl rfl
  · have hadv : p.advance.rest = token :: p.advance.advance.rest := Cursor.rest_advance hrest
    exact .inr ((Cursor.before_advance hrest).trans (Cursor.before_advance hadv))

/-- The four parts of a successful `parse_predicate`. -/
theorem parsePredicate_eq_ok {arch : Arch} {p q : Parser} {predicate : Predicate} :
    parsePredicate arch p = .ok (predicate, q) ↔
      ∃ p₁ p₂ p₃, expect "expected register name".toList (parseReg arch) p
          = .ok (predicate.reg, p₁) ∧
        parseMask p₁ = .ok (predicate.mask, p₂) ∧
        expect "expected comparison operator".toList parseOperator p₂ = .ok (predicate.op, p₃) ∧
        expect "expected comparison value".toList parseValue p₃ = .ok (predicate.value, q) := by
  simp only [parsePredicate, bind_eq_ok, Prod.exists]
  constructor
  · rintro ⟨reg, p₁, h₁, mask, p₂, h₂, op, p₃, h₃, value, p₄, h₄, h⟩
    obtain ⟨rfl, rfl⟩ := Prod.mk.inj (Except.ok.inj h)
    exact ⟨p₁, p₂, p₃, h₁, h₂, h₃, h₄⟩
  · rintro ⟨p₁, p₂, p₃, h₁, h₂, h₃, h₄⟩
    exact ⟨_, p₁, h₁, _, p₂, h₂, _, p₃, h₃, _, q, h₄, rfl⟩

theorem parsePredicate_before {arch : Arch} {p q : Parser} {predicate : Predicate}
    (h : parsePredicate arch p = .ok (predicate, q)) : p.Before q := by
  obtain ⟨p₁, p₂, p₃, h₁, h₂, h₃, h₄⟩ := parsePredicate_eq_ok.mp h
  have hop : p₂.Before q := (expect_before h₃).trans (expect_before h₄)
  rcases parseMask_le h₂ with rfl | hmask
  · exact (expect_before h₁).trans hop
  · exact (expect_before h₁).trans (hmask.trans hop)

/-- `parse_predicate` as a rule. -/
def predicateRule (arch : Arch) : Rule Str Str Predicate where
  run := parsePredicate arch
  before := parsePredicate_before

/-- The words that join predicates. -/
def andTests : List (Str → Bool) := [keyword "and".toList, keyword "&&".toList]

/-- The words that join groups. -/
def orTests : List (Str → Bool) := [keyword "or".toList, keyword "||".toList]

/-- `parse_and_group`. -/
def parseAndGroup (arch : Arch) : Rule Str Str (List Predicate) :=
  (predicateRule arch).sepBy andTests

/-- `parse_filter`. -/
def parseFilter (arch : Arch) : Rule Str Str (List (List Predicate)) :=
  (parseAndGroup arch).sepBy orTests

/-- `RegFilter::parse`.  The message for a token that is left over indexes the token
list, which panics past its end. -/
def parse (arch : Arch) (input : Str) : Except Failure RegFilter := do
  let tokens ← (tokenize input).mapError .bail
  if tokens.isEmpty then
    .error (.bail "empty register filter".toList)
  else
    let (groups, parser) ← ((parseFilter arch).run { tokens, pos := 0 }).mapError .bail
    if parser.pos ≠ parser.tokens.length then
      match parser.tokens[parser.pos]? with
      | some token => .error (.bail ("unexpected token: ".toList ++ token))
      | none => .error .panic
    else
      return { groups }

/-! ## Evaluation -/

/-- The comparison a predicate makes. -/
def Operator.eval (op : Operator) (lhs value : UInt64) : Bool :=
  match op with
  | .eq => lhs == value
  | .ne => lhs != value
  | .gt => lhs > value
  | .ge => lhs ≥ value
  | .lt => lhs < value
  | .le => lhs ≤ value

/-- One predicate of `matches`; a register the sample does not have makes it false. -/
def Predicate.matches (predicate : Predicate) (data : SampleData) : Bool :=
  match data.regs[predicate.reg]? with
  | none => false
  | some reg =>
      let lhs := predicate.mask.elim reg (reg &&& ·)
      predicate.op.eval lhs predicate.value

/-- `RegFilter::matches`. -/
def RegFilter.matches (filter : RegFilter) (data : SampleData) : Bool :=
  filter.groups.any fun group ↦ group.all fun predicate ↦ predicate.matches data

end Pwatch.Filter
