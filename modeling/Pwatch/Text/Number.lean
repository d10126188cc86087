import Pwatch.Text.Basic
import Mathlib.Algebra.Order.Group.Nat
import Mathlib.Tactic.IntervalCases

/-!
# Numbers as text

`u64::from_str_radix`, `str::parse::<u64>` and the formats `{:x}` and `{:016x}`.
The parser is characterised once (`fromStrRadix_eq_ok`): it accepts an optional
`+` and then one or more digits of the radix whose value fits in 64 bits.  The
two formats print digits with the value they were given, so printing and then
parsing is the identity.
-/

namespace Pwatch.Text

/-! ## Digits -/

/-- `char::to_digit`. -/
def toDigit (radix : Nat) (c : Char) : Option Nat :=
  let value :=
    if c.isDigit then some (c.toNat - 48)
    else if c.isLower then some (c.toNat - 87)
    else if c.isUpper then some (c.toNat - 55)
    else none
  value.filter (· < radix)

/-- Every character is a digit of the radix. -/
def IsNumeral (radix : Nat) (s : Str) : Prop := ∀ c ∈ s, (toDigit radix c).isSome

instance (radix : Nat) (s : Str) : Decidable (IsNumeral radix s) :=
  List.decidableBAll _ s

/-- No digit of any radix is whitespace. -/
theorem isWhitespace_of_isSome_toDigit {radix : Nat} {c : Char}
    (h : (toDigit radix c).isSome = true) : isWhitespace c = false := by
  have hcode : (48 ≤ c.toNat ∧ c.toNat ≤ 57) ∨ (65 ≤ c.toNat ∧ c.toNat ≤ 90) ∨
      (97 ≤ c.toNat ∧ c.toNat ≤ 122) := by
    simp only [toDigit] at h
    split_ifs at h with hdigit hlower hupper
    · exact .inl (isDigit_iff.mp hdigit)
    · exact .inr (.inr (isLower_iff.mp hlower))
    · exact .inr (.inl (isUpper_iff.mp hupper))
    · cases h
  simp only [isWhitespace, Bool.or_eq_false_iff, Bool.and_eq_false_iff, decide_eq_false_iff_not,
    beq_eq_false_iff_ne, ne_eq]
  omega

/-- A character that is no digit is in no numeral. -/
theorem IsNumeral.not_mem {radix : Nat} {s : Str} {c : Char} (h : IsNumeral radix s)
    (hc : toDigit radix c = none) : c ∉ s := by
  intro hmem
  have hdigit := h c hmem
  rw [hc] at hdigit
  cases hdigit

/-- The number a numeral denotes, its digits read from `acc` on. -/
def ofDigitsFrom (radix : Nat) : Nat → Str → Nat
  | acc, [] => acc
  | acc, c :: s => ofDigitsFrom radix (acc * radix + (toDigit radix c).getD 0) s

/-- The number a numeral denotes. -/
def ofDigits (radix : Nat) (s : Str) : Nat := ofDigitsFrom radix 0 s

theorem ofDigitsFrom_append (radix acc : Nat) (s t : Str) :
    ofDigitsFrom radix acc (s ++ t) = ofDigitsFrom radix (ofDigitsFrom radix acc s) t := by
  induction s generalizing acc with
  | nil => rfl
  | cons c s ih => exact ih _

theorem le_ofDigitsFrom {radix : Nat} (hr : 0 < radix) (acc : Nat) (s : Str) :
    acc ≤ ofDigitsFrom radix acc s := by
  induction s generalizing acc with
  | nil => exact Nat.le_refl _
  | cons c s ih =>
      calc acc ≤ acc * radix := Nat.le_mul_of_pos_right acc hr
        _ ≤ acc * radix + (toDigit radix c).getD 0 := Nat.le_add_right _ _
        _ ≤ _ := ih _

/-- The hex digits of `to_digit(16)` are those of `is_ascii_hexdigit`. -/
theorem isSome_toDigit_sixteen (c : Char) :
    (toDigit 16 c).isSome = isAsciiHexdigit c.toNat := by
  rw [Bool.eq_iff_iff]
  simp only [toDigit, isDigit_iff, isLower_iff, isUpper_iff, isAsciiHexdigit, Bool.and_eq_true,
    decide_eq_true_eq, Bool.or_eq_true]
  split_ifs with h₁ h₂ h₃ <;> simp [Option.filter] at * <;> omega

/-- The decimal digits of `to_digit(10)`. -/
theorem isSome_toDigit_ten (c : Char) : (toDigit 10 c).isSome = c.isDigit := by
  rw [Bool.eq_iff_iff]
  simp only [toDigit, isDigit_iff, isLower_iff, isUpper_iff]
  split_ifs with h₁ h₂ h₃ <;> simp [Option.filter] at * <;> omega

theorem isNumeral_sixteen_iff (s : Str) :
    IsNumeral 16 s ↔ s.all (fun c ↦ isAsciiHexdigit c.toNat) = true := by
  simp [IsNumeral, isSome_toDigit_sixteen]

section

variable {digits : Str}

theorem isWhitespace_of_mem_numeral (h : IsNumeral 16 digits) {c : Char} (hc : c ∈ digits) :
    isWhitespace c = false :=
  isWhitespace_of_isAsciiHexdigit (isSome_toDigit_sixteen c ▸ h c hc)

/-- Prefix and digits are not trimmed further. -/
theorem trimmed_prefix_append {pre : Str}
    (hpre : pre = [] ∨ pre = "0x".toList ∨ pre = "0X".toList) (hne : digits ≠ [])
    (h : IsNumeral 16 digits) : Trimmed (pre ++ digits) := by
  constructor
  · intro c hc
    rcases hpre with rfl | rfl | rfl
    · exact isWhitespace_of_mem_numeral h (List.mem_of_mem_head? hc)
    · obtain rfl : '0' = c := by simpa using hc
      rfl
    · obtain rfl : '0' = c := by simpa using hc
      rfl
  · intro c hc
    rw [List.getLast?_append_of_ne_nil _ hne] at hc
    exact isWhitespace_of_mem_numeral h (List.mem_of_getLast? hc)

end

/-- Letter case does not change the value of a digit. -/
theorem toDigit_toLower (radix : Nat) (c : Char) : toDigit radix c.toLower = toDigit radix c := by
  by_cases hc : c.isUpper = true
  · have hval : c.toLower.toNat = c.toNat + 32 := toNat_toLower hc
    obtain ⟨hlo, hhi⟩ := isUpper_iff.mp hc
    have hlower := isLower_toLower hc
    have hdigit : c.isDigit = false ∧ c.toLower.isDigit = false ∧ c.isLower = false := by
      simp only [← Bool.not_eq_true, isDigit_iff, isLower_iff, hval]
      omega
    simp only [toDigit, hdigit, hlower, hc, hval, Bool.false_eq_true, if_false, if_true]
    congr 2
  · rw [toLower_of_not_isUpper hc]

/-! ## Parsing -/

/-- `core::num::IntErrorKind`, as far as an unsigned parse can fail. -/
inductive IntErrorKind
  | empty
  | invalidDigit
  | posOverflow
deriving DecidableEq, Repr

/-- The display text of a `ParseIntError`. -/
def IntErrorKind.message : IntErrorKind → Str
  | .empty => "cannot parse integer from empty string".toList
  | .invalidDigit => "invalid digit found in string".toList
  | .posOverflow => "number too large to fit in target type".toList

/-- The digit loop of `from_str_radix`, with its two checks for each character. -/
def accumulate (radix : Nat) : Nat → Str → Except IntErrorKind UInt64
  | acc, [] => .ok (UInt64.ofNat acc)
  | acc, c :: s =>
      match toDigit radix c with
      | none => .error .invalidDigit
      | some d =>
          if acc * radix + d < 2 ^ 64 then accumulate radix (acc * radix + d) s
          else .error .posOverflow

/-- `u64::from_str_radix`.  A lone sign is an invalid digit; of the signs only `+`
is skipped, since the target is unsigned. -/
def fromStrRadix (radix : Nat) (src : Str) : Except IntErrorKind UInt64 :=
  match src with
  | [] => .error .empty
  | ['+'] | ['-'] => .error .invalidDigit
  | '+' :: digits => accumulate radix 0 digits
  | digits => accumulate radix 0 digits

theorem accumulate_eq_ok {radix : Nat} (hr : 0 < radix) {acc : Nat} (hacc : acc < 2 ^ 64)
    (s : Str) (v : UInt64) :
    accumulate radix acc s = .ok v ↔
      IsNumeral radix s ∧ ofDigitsFrom radix acc s < 2 ^ 64 ∧
        v = UInt64.ofNat (ofDigitsFrom radix acc s) := by
  induction s generalizing acc with
  | nil =>
      simp only [accumulate, Except.ok.injEq, ofDigitsFrom, hacc, true_and]
      exact ⟨fun h ↦ ⟨by simp [IsNumeral], h.symm⟩, fun h ↦ h.2.symm⟩
  | cons c s ih =>
      cases hd : toDigit radix c with
      | none => simp [accumulate, IsNumeral, hd]
      | some d =>
          simp only [accumulate, hd, ofDigitsFrom, Option.getD_some, IsNumeral, List.mem_cons,
            forall_eq_or_imp, Option.isSome_some, true_and]
          by_cases hlt : acc * radix + d < 2 ^ 64
          · rw [if_pos hlt]
            exact ih hlt
          · rw [if_neg hlt]
            have := le_ofDigitsFrom hr (acc * radix + d) s
            constructor
            · rintro ⟨⟩
            · rintro ⟨_, h, _⟩
              omega

theorem toDigit_plus (radix : Nat) : toDigit radix '+' = none := rfl

theorem toDigit_minus (radix : Nat) : toDigit radix '-' = none := rfl

/-- **What `from_str_radix` accepts**: an optional `+`, then one or more digits
whose value is below `2 ^ 64`. -/
theorem fromStrRadix_eq_ok {radix : Nat} (hr : 0 < radix) (src : Str) (v : UInt64) :
    fromStrRadix radix src = .ok v ↔
      ∃ digits, (src = digits ∨ src = '+' :: digits) ∧ digits ≠ [] ∧ IsNumeral radix digits ∧
        ofDigits radix digits < 2 ^ 64 ∧ v = UInt64.ofNat (ofDigits radix digits) := by
  have hacc := fun s ↦ accumulate_eq_ok hr (Nat.two_pow_pos 64) s v
  have hplus : ∀ s, ¬ IsNumeral radix ('+' :: s) := fun s h ↦
    h.not_mem (toDigit_plus radix) (.head s)
  unfold fromStrRadix
  split
  · simp
  · constructor
    · rintro ⟨⟩
    · rintro ⟨digits, rfl | h, hne, hnum, -⟩
      · exact absurd hnum (hplus [])
      · exact absurd (List.cons.inj h).2.symm hne
  · constructor
    · rintro ⟨⟩
    · rintro ⟨digits, rfl | h, hne, hnum, -⟩
      · exact absurd (.head _) (hnum.not_mem (toDigit_minus radix))
      · cases h
  · rename_i digits hne
    rw [hacc digits]
    constructor
    · rintro ⟨hnum, hlt, hv⟩
      exact ⟨digits, .inr rfl, fun h ↦ hne (by rw [h]), hnum, hlt, hv⟩
    · rintro ⟨digits', rfl | h, -, hnum, hlt, hv⟩
      · exact absurd hnum (hplus digits)
      · cases h
        exact ⟨hnum, hlt, hv⟩
  · rename_i hnil _ _ hno
    rw [hacc src]
    constructor
    · rintro ⟨hnum, hlt, hv⟩
      exact ⟨src, .inl rfl, hnil, hnum, hlt, hv⟩
    · rintro ⟨digits, rfl | h, -, hnum, hlt, hv⟩
      · exact ⟨hnum, hlt, hv⟩
      · exact absurd h (hno digits)

/-- On text that is known to be digits only the size can fail. -/
theorem fromStrRadix_of_isNumeral {radix : Nat} (hr : 0 < radix) {s : Str} (hne : s ≠ [])
    (hnum : IsNumeral radix s) (v : UInt64) :
    fromStrRadix radix s = .ok v ↔
      ofDigits radix s < 2 ^ 64 ∧ v = UInt64.ofNat (ofDigits radix s) := by
  rw [fromStrRadix_eq_ok hr]
  constructor
  · rintro ⟨digits, rfl | rfl, -, -, hlt, hv⟩
    · exact ⟨hlt, hv⟩
    · exact absurd (.head _) (hnum.not_mem (toDigit_plus radix))
  · rintro ⟨hlt, hv⟩
    exact ⟨s, .inl rfl, hne, hnum, hlt, hv⟩

theorem ofDigits_lt_pow {radix : Nat} (hr : 0 < radix) (s : Str) (acc : Nat) :
    ofDigitsFrom radix acc s < (acc + 1) * radix ^ s.length := by
  induction s generalizing acc with
  | nil => simp [ofDigitsFrom]
  | cons c s ih =>
      have hd : (toDigit radix c).getD 0 < radix := by
        cases h : toDigit radix c with
        | none => exact hr
        | some d =>
            rw [toDigit, Option.filter_eq_some_iff] at h
            simpa using h.2
      calc ofDigitsFrom radix acc (c :: s)
          < (acc * radix + (toDigit radix c).getD 0 + 1) * radix ^ s.length := ih _
        _ ≤ ((acc + 1) * radix) * radix ^ s.length :=
            Nat.mul_le_mul_right _ (by rw [Nat.succ_mul]; omega)
        _ = (acc + 1) * radix ^ (c :: s).length := by
            rw [List.length_cons, Nat.pow_succ', Nat.mul_assoc]

/-- Sixteen hex digits always fit. -/
theorem ofDigits_sixteen_lt {s : Str} (h : s.length ≤ 16) : ofDigits 16 s < 2 ^ 64 :=
  calc ofDigits 16 s < (0 + 1) * 16 ^ s.length := ofDigits_lt_pow (by omega) s 0
    _ ≤ 1 * 16 ^ 16 := Nat.mul_le_mul (by omega) (Nat.pow_le_pow_right (by omega) h)
    _ = 2 ^ 64 := rfl

/-! ## Printing -/

/-- `{:x}`. -/
def lowerHex (n : Nat) : Str := Nat.toDigits 16 n

/-- `{:016x}`. -/
def lowerHex16 (n : Nat) : Str := (lowerHex n).leftpad 16 '0'

theorem toDigit_digitChar {radix d : Nat} (hr : radix ≤ 16) (h : d < radix) :
    toDigit radix (Nat.digitChar d) = some d := by
  have hsixteen : ∀ d < 16, toDigit 16 (Nat.digitChar d) = some d := by decide
  have hd := hsixteen d (Nat.lt_of_lt_of_le h hr)
  rw [toDigit, Option.filter_eq_some_iff] at hd ⊢
  exact ⟨hd.1, by simpa using h⟩

section

variable {radix : Nat} (hlo : 1 < radix) (hhi : radix ≤ 16)

include hlo hhi

theorem isNumeral_toDigits (n : Nat) : IsNumeral radix (Nat.toDigits radix n) := by
  induction n using Nat.strong_induction_on with
  | _ n ih =>
      intro c hc
      rw [Nat.toDigits_eq_if hlo] at hc
      split at hc
      · rename_i hlt
        rw [List.mem_singleton.mp hc, toDigit_digitChar hhi hlt]
        rfl
      · rename_i hge
        rcases List.mem_append.mp hc with hc | hc
        · exact ih (n / radix) (Nat.div_lt_self (by omega) hlo) c hc
        · rw [List.mem_singleton.mp hc, toDigit_digitChar hhi (Nat.mod_lt n (by omega))]
          rfl

/-- Printing a number and reading the digits gives it back. -/
theorem ofDigits_toDigits (n : Nat) : ofDigits radix (Nat.toDigits radix n) = n := by
  induction n using Nat.strong_induction_on with
  | _ n ih =>
      rw [Nat.toDigits_eq_if hlo]
      split
      · rename_i hlt
        simp [ofDigits, ofDigitsFrom, toDigit_digitChar hhi hlt]
      · rename_i hge
        have hq : ofDigitsFrom radix 0 (Nat.toDigits radix (n / radix)) = n / radix :=
          ih (n / radix) (Nat.div_lt_self (by omega) hlo)
        rw [ofDigits, ofDigitsFrom_append, hq]
        simp only [ofDigitsFrom, toDigit_digitChar hhi (Nat.mod_lt n (by omega : radix > 0)),
          Option.getD_some]
        exact Nat.div_add_mod' n radix

end

theorem isNumeral_lowerHex (n : Nat) : IsNumeral 16 (lowerHex n) :=
  isNumeral_toDigits (by omega) (by omega) n

/-- Printing in hex and reading the digits gives the number back. -/
theorem ofDigits_lowerHex (n : Nat) : ofDigits 16 (lowerHex n) = n :=
  ofDigits_toDigits (by omega) (by omega) n

theorem lowerHex_ne_nil (n : Nat) : lowerHex n ≠ [] := Nat.toDigits_ne_nil

theorem length_lowerHex_le {n : Nat} (h : n < 2 ^ 64) : (lowerHex n).length ≤ 16 :=
  (Nat.length_toDigits_le_iff (by omega) (by omega)).mpr h

theorem isNumeral_lowerHex16 (n : Nat) : IsNumeral 16 (lowerHex16 n) := by
  intro c hc
  rcases List.mem_append.mp hc with hc | hc
  · rw [List.eq_of_mem_replicate hc]
    rfl
  · exact isNumeral_lowerHex n c hc

theorem ofDigitsFrom_replicate_zero (k : Nat) (s : Str) :
    ofDigitsFrom 16 0 (List.replicate k '0' ++ s) = ofDigitsFrom 16 0 s := by
  induction k with
  | zero => rfl
  | succ k ih => exact ih

/-- Leading zeros do not change the number. -/
theorem ofDigits_lowerHex16 (n : Nat) : ofDigits 16 (lowerHex16 n) = n := by
  rw [lowerHex16, List.leftpad, ofDigits, ofDigitsFrom_replicate_zero]
  exact ofDigits_lowerHex n

/-- A `u64` is printed with exactly sixteen digits. -/
theorem length_lowerHex16 {n : Nat} (h : n < 2 ^ 64) : (lowerHex16 n).length = 16 := by
  rw [lowerHex16, List.length_leftpad]
  have := length_lowerHex_le h
  omega

theorem fromStrRadix_lowerHex (v : UInt64) : fromStrRadix 16 (lowerHex v.toNat) = .ok v := by
  rw [fromStrRadix_of_isNumeral (by omega) (lowerHex_ne_nil _) (isNumeral_lowerHex _),
    ofDigits_lowerHex]
  exact ⟨v.toNat_lt, UInt64.ofNat_toNat.symm⟩

/-! ## Numerals of a number -/

/-- The text is a numeral of the radix for the number. -/
structure NumeralOf (radix : Nat) (text : Str) (n : UInt64) : Prop where
  ne_nil : text ≠ []
  isNumeral : IsNumeral radix text
  ofDigits_eq : ofDigits radix text = n.toNat

section

variable {radix : Nat} {text : Str} {n : UInt64}

/-- A numeral is read as its number. -/
theorem NumeralOf.fromStrRadix_eq (h : NumeralOf radix text n) (hr : 0 < radix) :
    fromStrRadix radix text = .ok n := by
  rw [fromStrRadix_of_isNumeral hr h.ne_nil h.isNumeral, h.ofDigits_eq]
  exact ⟨n.toNat_lt, UInt64.ofNat_toNat.symm⟩

/-- What `from_str_radix` accepts is a numeral, with a `+` in front or not. -/
theorem fromStrRadix_eq_ok_iff_numeralOf (hr : 0 < radix) :
    fromStrRadix radix text = .ok n ↔
      NumeralOf radix text n ∨ ∃ digits, text = '+' :: digits ∧ NumeralOf radix digits n := by
  have hvalue : ∀ digits, ofDigits radix digits < 2 ^ 64 ∧ n = UInt64.ofNat (ofDigits radix digits)
      ↔ ofDigits radix digits = n.toNat := by
    intro digits
    constructor
    · rintro ⟨hlt, rfl⟩
      exact (UInt64.toNat_ofNat_of_lt' hlt).symm
    · intro h
      exact ⟨h ▸ n.toNat_lt, by rw [h, UInt64.ofNat_toNat]⟩
  simp only [fromStrRadix_eq_ok hr, hvalue]
  constructor
  · rintro ⟨digits, rfl | rfl, hne, hnum, hn⟩
    · exact .inl ⟨hne, hnum, hn⟩
    · exact .inr ⟨digits, rfl, hne, hnum, hn⟩
  · rintro (h | ⟨digits, rfl, h⟩)
    · exact ⟨text, .inl rfl, h.ne_nil, h.isNumeral, h.ofDigits_eq⟩
    · exact ⟨digits, .inr rfl, h.ne_nil, h.isNumeral, h.ofDigits_eq⟩

/-- Leading zeros do not change the number. -/
theorem NumeralOf.leftpad (h : NumeralOf 16 text n) (k : Nat) :
    NumeralOf 16 (text.leftpad k '0') n where
  ne_nil := List.append_ne_nil_of_right_ne_nil _ h.ne_nil
  isNumeral c hc := by
    rcases List.mem_append.mp hc with hc | hc
    · rw [List.eq_of_mem_replicate hc]
      rfl
    · exact h.isNumeral c hc
  ofDigits_eq := by
    rw [List.leftpad, ofDigits, ofDigitsFrom_replicate_zero]
    exact h.ofDigits_eq

end

theorem numeralOf_toDigits {radix : Nat} (hlo : 1 < radix) (hhi : radix ≤ 16) (n : UInt64) :
    NumeralOf radix (Nat.toDigits radix n.toNat) n :=
  ⟨Nat.toDigits_ne_nil, isNumeral_toDigits hlo hhi _, ofDigits_toDigits hlo hhi _⟩

theorem numeralOf_lowerHex (n : UInt64) : NumeralOf 16 (lowerHex n.toNat) n :=
  numeralOf_toDigits (by omega) (by omega) n

/-- The text is `0x` and hex digits that denote the number. -/
def HexOf (text : Str) (n : Nat) : Prop :=
  ∃ digits, text = "0x".toList ++ digits ∧ digits ≠ [] ∧ IsNumeral 16 digits ∧
    ofDigits 16 digits = n

theorem hexOf_lowerHex (n : Nat) : HexOf ("0x".toList ++ lowerHex n) n :=
  ⟨lowerHex n, rfl, lowerHex_ne_nil n, isNumeral_lowerHex n, ofDigits_lowerHex n⟩

theorem hexOf_lowerHex16 (n : Nat) : HexOf ("0x".toList ++ lowerHex16 n) n :=
  ⟨lowerHex16 n, rfl, List.append_ne_nil_of_right_ne_nil _ (lowerHex_ne_nil n),
    isNumeral_lowerHex16 n, ofDigits_lowerHex16 n⟩

/-! ## Decimal numbers -/

/-- `str::parse::<u32>`. -/
def parseU32 (s : Str) : Option UInt32 := do
  let n ← (fromStrRadix 10 s).toOption
  if n.toNat < 2 ^ 32 then some (UInt32.ofNat n.toNat) else none

/-- A number that was printed is read back. -/
theorem parseU32_toDigits (n : UInt32) : parseU32 (Nat.toDigits 10 n.toNat) = some n := by
  have hlt : n.toNat < 2 ^ 32 := n.toNat_lt
  have hwide : (UInt64.ofNat n.toNat).toNat = n.toNat := by
    rw [UInt64.toNat_ofNat']
    exact Nat.mod_eq_of_lt (by omega)
  have hnumeral := numeralOf_toDigits (by omega : 1 < 10) (by omega) (UInt64.ofNat n.toNat)
  rw [hwide] at hnumeral
  simp only [parseU32, hnumeral.fromStrRadix_eq (by omega), Except.toOption, hwide, hlt, if_true,
    Option.bind_eq_bind, Option.bind_some, UInt32.ofNat_toNat]

theorem isDigit_of_mem_toDigits {n : Nat} {c : Char} (h : c ∈ Nat.toDigits 10 n) :
    c.isDigit = true := by
  rw [← isSome_toDigit_ten]
  exact isNumeral_toDigits (by omega) (by omega) n c h

theorem trimmed_toDigits (n : Nat) : Trimmed (Nat.toDigits 10 n) := by
  have hdigit : ∀ c ∈ Nat.toDigits 10 n, isWhitespace c = false := fun c hc ↦
    isWhitespace_of_isSome_toDigit (isNumeral_toDigits (by omega) (by omega) n c hc)
  exact ⟨fun c hc ↦ hdigit c (List.mem_of_mem_head? hc),
    fun c hc ↦ hdigit c (List.mem_of_getLast? hc)⟩

theorem toAsciiLowercase_toDigits (n : Nat) :
    toAsciiLowercase (Nat.toDigits 10 n) = Nat.toDigits 10 n := by
  refine (List.map_congr_left fun c hc ↦ toLower_of_not_isUpper ?_).trans (List.map_id _)
  have hdigit := isDigit_iff.mp (isDigit_of_mem_toDigits hc)
  rw [isUpper_iff]
  omega

end Pwatch.Text
