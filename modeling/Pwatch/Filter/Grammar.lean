import Pwatch.Filter.Parser

/-!
# The filter language

The grammar of register filters over lexemes, stated without the parser:

    filter    = and_group (("or" | "||") and_group)*
    and_group = predicate (("and" | "&&") predicate)*
    predicate = reg ["&" value] ("=" | "==" | "!=" | ">" | ">=" | "<" | "<=") value

and the agreement of each single-token function of the parser with its token class.
-/

namespace Pwatch.Filter

open Text Grammar

/-! ## Token classes -/

/-- `token` names the register with index `reg`, in any letter case. -/
def RegName (arch : Arch) (token : Str) (reg : Nat) : Prop :=
  reg < arch.regsCount ∧ toAsciiLowercase token = toAsciiLowercase (arch.idToStr reg)

/-- The comparison operators and their spellings. -/
inductive Comparison : Str → Operator → Prop
  | eq : Comparison ['='] .eq
  | eqEq : Comparison ['=', '='] .eq
  | ne : Comparison ['!', '='] .ne
  | gt : Comparison ['>'] .gt
  | ge : Comparison ['>', '='] .ge
  | lt : Comparison ['<'] .lt
  | le : Comparison ['<', '='] .le

/-- The numerals of a filter.  That the number is that of a `UInt64` bounds it. -/
inductive Value : Str → UInt64 → Prop
  | /-- One or more decimal digits. -/
    decimal {digits : Str} {v : UInt64} :
      digits ≠ [] → IsNumeral 10 digits → v.toNat = ofDigits 10 digits → Value digits v
  | /-- `0x` or `0X` and one or more hexadecimal digits. -/
    hex {x : Char} {digits : Str} {v : UInt64} :
      x = 'x' ∨ x = 'X' → digits ≠ [] → IsNumeral 16 digits → v.toNat = ofDigits 16 digits →
        Value ('0' :: x :: digits) v

/-- `and` in any letter case, or `&&`. -/
def IsAnd (token : Str) : Prop := toAsciiLowercase token = "and".toList ∨ token = "&&".toList

/-- `or` in any letter case, or `||`. -/
def IsOr (token : Str) : Prop := toAsciiLowercase token = "or".toList ∨ token = "||".toList

/-! ## Productions -/

/-- The tokens of one predicate. -/
inductive PredicateDerives (arch : Arch) : List Str → Predicate → Prop
  | /-- `reg op value` -/
    plain {r o t : Str} {reg : Nat} {op : Operator} {value : UInt64} :
      RegName arch r reg → Comparison o op → Value t value →
        PredicateDerives arch [r, o, t] ⟨reg, none, op, value⟩
  | /-- `reg & value op value` -/
    masked {r m o t : Str} {reg : Nat} {mask : UInt64} {op : Operator} {value : UInt64} :
      RegName arch r reg → Value m mask → Comparison o op → Value t value →
        PredicateDerives arch [r, ['&'], m, o, t] ⟨reg, some mask, op, value⟩

/-- The tokens of a conjunction. -/
def GroupDerives (arch : Arch) : List Str → List Predicate → Prop :=
  SepBy IsAnd (PredicateDerives arch)

/-- The tokens of a filter. -/
def FilterDerives (arch : Arch) : List Str → List (List Predicate) → Prop :=
  SepBy IsOr (GroupDerives arch)

/-! ## Keywords -/

theorem keyword_iff {expected token : Str} :
    keyword expected token = true ↔ toAsciiLowercase token = toAsciiLowercase expected :=
  eqIgnoreAsciiCase_iff

theorem keyword_amp {token : Str} : keyword ['&'] token = true ↔ token = ['&'] :=
  keyword_iff.trans (toAsciiLowercase_eq_iff (by decide))

theorem isSep_andTests (token : Str) : Rule.IsSep andTests token ↔ IsAnd token := by
  have hand : keyword "and".toList token = true ↔ toAsciiLowercase token = "and".toList :=
    keyword_iff
  have hamp : keyword "&&".toList token = true ↔ token = "&&".toList :=
    keyword_iff.trans (toAsciiLowercase_eq_iff (by decide))
  rw [IsAnd, ← hand, ← hamp, Rule.IsSep, andTests, List.any_cons, List.any_cons, List.any_nil,
    Bool.or_false, Bool.or_eq_true]

theorem isSep_orTests (token : Str) : Rule.IsSep orTests token ↔ IsOr token := by
  have hor : keyword "or".toList token = true ↔ toAsciiLowercase token = "or".toList :=
    keyword_iff
  have hbar : keyword "||".toList token = true ↔ token = "||".toList :=
    keyword_iff.trans (toAsciiLowercase_eq_iff (by decide))
  rw [IsOr, ← hor, ← hbar, Rule.IsSep, orTests, List.any_cons, List.any_cons, List.any_nil,
    Bool.or_false, Bool.or_eq_true]

/-- No token joins both predicates and groups. -/
theorem IsOr.not_isAnd {token : Str} (h : IsOr token) : ¬ IsAnd token := by
  rintro (hand | rfl)
  · rcases h with hor | rfl
    · rw [hor] at hand
      exact absurd hand (by decide)
    · exact absurd hand (by decide)
  · rcases h with hor | hor <;> exact absurd hor (by decide)

/-! ## The functions of single tokens -/

theorem parseReg_eq_ok {arch : Arch} {token : Str} {reg : Nat} :
    parseReg arch token = .ok reg ↔ RegName arch token reg := by
  have hfound : ∀ {idx}, ((List.range arch.regsCount).find? fun idx ↦
      eqIgnoreAsciiCase (arch.idToStr idx) token) = some idx → RegName arch token idx := by
    intro idx hfind
    have hname := List.find?_some hfind
    rw [eqIgnoreAsciiCase_iff] at hname
    exact ⟨List.mem_range.mp (List.mem_of_find?_eq_some hfind), hname.symm⟩
  unfold parseReg
  constructor
  · intro h
    split at h
    · rename_i idx hfind
      obtain rfl := Except.ok.inj h
      exact hfound hfind
    · simp at h
  · rintro ⟨hreg, hname⟩
    split
    · rename_i idx hfind
      obtain ⟨hidx, hname'⟩ := hfound hfind
      rw [arch.idToStr_injective hidx hreg (eqIgnoreAsciiCase_iff.mpr (hname'.symm.trans hname))]
    · rename_i hfind
      have hno := List.find?_eq_none.mp hfind reg (List.mem_range.mpr hreg)
      exact absurd (eqIgnoreAsciiCase_iff.mpr hname.symm) hno

theorem parseOperator_eq_ok {token : Str} {op : Operator} :
    parseOperator token = .ok op ↔ Comparison token op := by
  constructor
  · intro h
    unfold parseOperator at h
    split at h
    all_goals first
      | (obtain rfl := Except.ok.inj h; constructor)
      | simp at h
  · rintro (_ | _) <;> rfl

/-- A comparison operator is not the mark of a mask. -/
theorem Comparison.ne_amp {token : Str} {op : Operator} (h : Comparison token op) :
    keyword ['&'] token = false := by
  cases h <;> rfl

theorem mapError_eq_ok {x : Except IntErrorKind UInt64} {v : UInt64} :
    x.mapError IntErrorKind.message = .ok v ↔ x = .ok v := by
  cases x <;> simp [Except.mapError]

theorem fromStrRadix_eq_ok_iff {radix : Nat} (hr : 0 < radix) {s : Str} (hs : '+' ∉ s)
    (v : UInt64) : fromStrRadix radix s = .ok v ↔
      s ≠ [] ∧ IsNumeral radix s ∧ v.toNat = ofDigits radix s := by
  rw [fromStrRadix_eq_ok hr]
  constructor
  · rintro ⟨digits, rfl | rfl, hne, hnum, hlt, rfl⟩
    · exact ⟨hne, hnum, UInt64.toNat_ofNat_of_lt' hlt⟩
    · simp at hs
  · rintro ⟨hne, hnum, hv⟩
    exact ⟨s, .inl rfl, hne, hnum, hv ▸ v.toNat_lt, by rw [← hv, UInt64.ofNat_toNat]⟩

/-- The two hexadecimal prefixes. -/
theorem stripPrefix_hex (token : Str) :
    (∃ x digits, (x = 'x' ∨ x = 'X') ∧ token = '0' :: x :: digits ∧
      (stripPrefix ['0', 'x'] token).or (stripPrefix ['0', 'X'] token) = some digits) ∨
    ((stripPrefix ['0', 'x'] token).or (stripPrefix ['0', 'X'] token) = none ∧
      ∀ x digits, x = 'x' ∨ x = 'X' → token ≠ '0' :: x :: digits) := by
  cases hlower : stripPrefix ['0', 'x'] token with
  | some digits => exact .inl ⟨'x', digits, .inl rfl, stripPrefix_eq_some.mp hlower, rfl⟩
  | none =>
      cases hupper : stripPrefix ['0', 'X'] token with
      | some digits => exact .inl ⟨'X', digits, .inr rfl, stripPrefix_eq_some.mp hupper, rfl⟩
      | none =>
          refine .inr ⟨rfl, ?_⟩
          rintro x digits (rfl | rfl) rfl
          · cases hlower.symm.trans (stripPrefix_append ['0', 'x'] digits)
          · cases hupper.symm.trans (stripPrefix_append ['0', 'X'] digits)

/-- Where no sign can occur, `parse_value` accepts the numerals. -/
theorem parseValue_eq_ok {token : Str} (hplus : '+' ∉ token) {v : UInt64} :
    parseValue token = .ok v ↔ Value token v := by
  unfold parseValue
  rcases stripPrefix_hex token with ⟨x, digits, hx, rfl, hstrip⟩ | ⟨hstrip, hno⟩
  · simp only [hstrip]
    rw [mapError_eq_ok, fromStrRadix_eq_ok_iff (by omega) (fun h ↦ hplus (by simp [h]))]
    constructor
    · rintro ⟨hne, hnum, hv⟩
      exact .hex hx hne hnum hv
    · intro h
      cases h with
      | decimal hne hnum hv =>
          have := hnum x (by simp)
          rcases hx with rfl | rfl <;> cases this
      | hex _ hne hnum hv => exact ⟨hne, hnum, hv⟩
  · simp only [hstrip]
    rw [mapError_eq_ok, fromStrRadix_eq_ok_iff (by omega) hplus]
    constructor
    · rintro ⟨hne, hnum, hv⟩
      exact .decimal hne hnum hv
    · intro h
      cases h with
      | decimal hne hnum hv => exact ⟨hne, hnum, hv⟩
      | hex hx => exact absurd rfl (hno _ _ hx)

end Pwatch.Filter
