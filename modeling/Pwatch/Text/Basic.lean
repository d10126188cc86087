import Mathlib.Data.List.DropRight
import Mathlib.Data.List.Infix
import Mathlib.Tactic.Set

/-!
# Text

Strings are sequences of Unicode scalar values, so a `Str` is a list of
characters.  This file holds the part of the standard library of `char` and
`str` that the program calls, under the names it has there: the Unicode
whitespace test, `trim`, `strip_prefix`, `split_once`, the ASCII case functions
and the UTF-8 bytes of a string.  Lean's own `Char.isAlphanum`, `Char.isDigit`
and `Char.toLower` are the ASCII tests of the same meaning and are used as they
are.
-/

namespace Pwatch

/-- A string: its Unicode scalar values in order. -/
abbrev Str := List Char

namespace Text

/-! ## Whitespace -/

/-- `char::is_whitespace`: the Unicode property `White_Space`. -/
def isWhitespace (c : Char) : Bool :=
  let n := c.toNat
  (9 ≤ n && n ≤ 13) || n == 0x20 || n == 0x85 || n == 0xA0 || n == 0x1680 ||
    (0x2000 ≤ n && n ≤ 0x200A) || n == 0x2028 || n == 0x2029 || n == 0x202F ||
    n == 0x205F || n == 0x3000

/-- `str::trim`. -/
def trim (s : Str) : Str := (s.dropWhile isWhitespace).rdropWhile isWhitespace

/-- The text neither begins nor ends with whitespace. -/
def Trimmed (s : Str) : Prop :=
  (∀ c ∈ s.head?, isWhitespace c = false) ∧ ∀ c ∈ s.getLast?, isWhitespace c = false

instance (s : Str) : Decidable (Trimmed s) :=
  @instDecidableAnd _ _ (Option.decidableForallMem _) (Option.decidableForallMem _)

/-- A run of whitespace. -/
def Blank (s : Str) : Prop := ∀ c ∈ s, isWhitespace c = true

theorem dropWhile_blank_append {lead : Str} (h : Blank lead) (s : Str) :
    (lead ++ s).dropWhile isWhitespace = s.dropWhile isWhitespace := by
  induction lead with
  | nil => rfl
  | cons c lead ih =>
      rw [List.cons_append, List.dropWhile_cons, if_pos (h c (by simp))]
      exact ih fun d hd ↦ h d (by simp [hd])

theorem dropWhile_eq_self {s : Str} (h : ∀ c ∈ s.head?, isWhitespace c = false) :
    s.dropWhile isWhitespace = s := by
  cases s with
  | nil => rfl
  | cons c s => rw [List.dropWhile_cons, if_neg (by simp [h c (by simp)])]

theorem rdropWhile_append_blank {trail : Str} (h : Blank trail) (s : Str) :
    (s ++ trail).rdropWhile isWhitespace = s.rdropWhile isWhitespace := by
  rw [List.rdropWhile, List.reverse_append,
    dropWhile_blank_append fun c hc ↦ h c (List.mem_reverse.mp hc)]
  rfl

theorem rdropWhile_eq_self {s : Str} (h : ∀ c ∈ s.getLast?, isWhitespace c = false) :
    s.rdropWhile isWhitespace = s := by
  rw [List.rdropWhile, dropWhile_eq_self (by simpa using h), List.reverse_reverse]

/-- Trimming takes a run of whitespace off both ends and nothing else. -/
theorem trim_eq {lead s trail : Str} (hlead : Blank lead) (htrail : Blank trail)
    (hs : Trimmed s) (hne : s ≠ []) : trim (lead ++ s ++ trail) = s := by
  obtain ⟨c, s', rfl⟩ := List.exists_cons_of_ne_nil hne
  have hhead : ∀ d ∈ ((c :: s') ++ trail).head?, isWhitespace d = false := by
    simpa using hs.1 c (by simp)
  rw [trim, List.append_assoc, dropWhile_blank_append hlead, dropWhile_eq_self hhead,
    rdropWhile_append_blank htrail, rdropWhile_eq_self hs.2]

theorem trim_eq_self {s : Str} (hs : Trimmed s) : trim s = s := by
  rw [trim, dropWhile_eq_self hs.1, rdropWhile_eq_self hs.2]

/-- What `trim` takes away is whitespace, and what it keeps is trimmed. -/
theorem trim_spec (s : Str) :
    ∃ lead trail, s = lead ++ trim s ++ trail ∧ Blank lead ∧ Blank trail ∧ Trimmed (trim s) := by
  set t := s.dropWhile isWhitespace with ht
  refine ⟨s.takeWhile isWhitespace, t.rtakeWhile isWhitespace, ?_, ?_, ?_, ?_, ?_⟩
  · calc s = s.takeWhile isWhitespace ++ t := List.takeWhile_append_dropWhile.symm
      _ = s.takeWhile isWhitespace ++ (t.rdropWhile isWhitespace ++ t.rtakeWhile isWhitespace) := by
          conv_lhs => rw [← List.reverse_reverse t,
            ← List.takeWhile_append_dropWhile (p := isWhitespace) (l := t.reverse)]
          rw [List.reverse_append, List.rdropWhile, List.rtakeWhile]
      _ = _ := by rw [← List.append_assoc, trim]
  · exact fun c hc ↦ List.mem_takeWhile_imp hc
  · exact fun c hc ↦ List.mem_rtakeWhile_imp hc
  · intro c hc
    obtain ⟨u, hu⟩ : ∃ u, trim s ++ u = t := List.rdropWhile_prefix isWhitespace t
    have hct : c ∈ t.head? := by
      rw [← hu, List.head?_append]
      simp [Option.mem_def.mp hc]
    have := List.head?_dropWhile_not isWhitespace s
    rw [← ht, Option.mem_def.mp hct] at this
    simpa using this
  · intro c hc
    have hne : t.rdropWhile isWhitespace ≠ [] := by
      intro hnil
      rw [trim, ← ht, hnil] at hc
      simp at hc
    have hlast := List.rdropWhile_last_not isWhitespace t hne
    rw [trim, ← ht, List.getLast?_eq_some_getLast hne] at hc
    cases Option.mem_def.mp hc
    simpa using hlast

/-- `str::split_whitespace`. -/
def splitWhitespace (s : Str) : List Str := (s.splitOnP isWhitespace).filter (· ≠ [])

/-! ## Lines -/

/-- A line without the carriage return in front of its line feed. -/
def stripCarriageReturn (line : Str) : Str :=
  if line.getLast? = some '\r' then line.dropLast else line

/-- `str::lines`.  What stands behind the last line feed is a line when it is not empty. -/
def lines (s : Str) : List Str :=
  let pieces := s.splitOn '\n'
  pieces.dropLast.map stripCarriageReturn ++ pieces.getLast?.toList.filter (· ≠ [])

/-! ## Prefixes, separators and case -/

/-- `str::strip_prefix`. -/
def stripPrefix (pre s : Str) : Option Str := pre.isPrefixOf? s

theorem stripPrefix_eq_some {pre s t : Str} : stripPrefix pre s = some t ↔ s = pre ++ t :=
  List.isPrefixOf?_eq_some_iff_append_eq.trans eq_comm

@[simp] theorem stripPrefix_append (pre s : Str) : stripPrefix pre (pre ++ s) = some s :=
  stripPrefix_eq_some.mpr rfl

/-- `str::split_once` at a character: what stands before and after its first
occurrence. -/
def splitOnce (sep : Char) : Str → Option (Str × Str)
  | [] => none
  | c :: s =>
      if c = sep then some ([], s)
      else (splitOnce sep s).map fun (before, after) ↦ (c :: before, after)

theorem splitOnce_append {sep : Char} {before : Str} (h : sep ∉ before) (after : Str) :
    splitOnce sep (before ++ sep :: after) = some (before, after) := by
  induction before with
  | nil => simp [splitOnce]
  | cons c before ih =>
      obtain ⟨hne, hmem⟩ : c ≠ sep ∧ sep ∉ before := by
        simpa [eq_comm, not_or] using h
      simp [splitOnce, hne, ih hmem]

/-- `str::to_ascii_lowercase`. -/
def toAsciiLowercase (s : Str) : Str := s.map Char.toLower

/-- `str::eq_ignore_ascii_case`. -/
def eqIgnoreAsciiCase (s t : Str) : Bool := toAsciiLowercase s == toAsciiLowercase t

@[simp] theorem eqIgnoreAsciiCase_iff {s t : Str} :
    eqIgnoreAsciiCase s t = true ↔ toAsciiLowercase s = toAsciiLowercase t := by
  simp [eqIgnoreAsciiCase]

theorem eqIgnoreAsciiCase_self (s : Str) : eqIgnoreAsciiCase s s = true := by simp

section

variable {c d : Char}

theorem isDigit_iff : c.isDigit = true ↔ 48 ≤ c.toNat ∧ c.toNat ≤ 57 := Char.isDigit_iff_toNat

theorem isUpper_iff : c.isUpper = true ↔ 65 ≤ c.toNat ∧ c.toNat ≤ 90 :=
  decide_eq_true_iff.trans (and_congr UInt32.le_iff_toNat_le UInt32.le_iff_toNat_le)

theorem isLower_iff : c.isLower = true ↔ 97 ≤ c.toNat ∧ c.toNat ≤ 122 :=
  Bool.and_eq_true_iff.trans (and_congr (decide_eq_true_iff.trans UInt32.le_iff_toNat_le)
    (decide_eq_true_iff.trans UInt32.le_iff_toNat_le))

/-- The lower case of an upper-case letter. -/
theorem toNat_toLower (h : c.isUpper = true) : c.toLower.toNat = c.toNat + 32 := by
  have hval : c.toLower.val = c.val + 32 := congrArg Char.val (dif_pos (of_decide_eq_true h))
  have hhi : c.toNat ≤ 90 := (isUpper_iff.mp h).2
  rw [Char.toNat, hval, UInt32.toNat_add]
  exact Nat.mod_eq_of_lt (Nat.lt_of_le_of_lt (Nat.add_le_add_right hhi _) (by decide))

theorem toLower_of_not_isUpper (h : ¬ c.isUpper = true) : c.toLower = c :=
  dif_neg fun hc ↦ h (decide_eq_true hc)

/-- The lower case of an upper-case letter is a lower-case letter. -/
theorem isLower_toLower (h : c.isUpper = true) : c.toLower.isLower = true := by
  obtain ⟨hlo, hhi⟩ := isUpper_iff.mp h
  rw [isLower_iff, toNat_toLower h]
  omega

/-- A character that is no letter is the lower case of itself alone. -/
theorem toLower_eq_iff (hd : d.isAlpha = false) : c.toLower = d ↔ c = d := by
  obtain ⟨hupper, hlower⟩ := Bool.or_eq_false_iff.mp hd
  by_cases hc : c.isUpper = true
  · constructor
    · rintro rfl
      rw [isLower_toLower hc] at hlower
      cases hlower
    · rintro rfl
      rw [hc] at hupper
      cases hupper
  · rw [toLower_of_not_isUpper hc]

end

/-- A text without letters matches only itself. -/
theorem toAsciiLowercase_eq_iff {s t : Str} (hs : s.any Char.isAlpha = false) :
    toAsciiLowercase t = s ↔ t = s := by
  induction s generalizing t with
  | nil => exact List.map_eq_nil_iff
  | cons d s ih =>
      rw [List.any_cons, Bool.or_eq_false_iff] at hs
      cases t with
      | nil => simp [toAsciiLowercase]
      | cons c t =>
          have hhead : c.toLower = d ↔ c = d := toLower_eq_iff hs.1
          have htail : t.map Char.toLower = s ↔ t = s := ih hs.2
          rw [toAsciiLowercase, List.map_cons, List.cons.injEq, List.cons.injEq, hhead, htail]

/-- `str::contains` of a text. -/
def contains (s part : Str) : Bool := decide (part <:+: s)

/-- `str::ends_with`. -/
def endsWith (s suffix : Str) : Bool := suffix.isSuffixOf s

/-! ## Bytes -/

/-- `str::bytes`: the UTF-8 encoding. -/
def bytes (s : Str) : List UInt8 := s.flatMap String.utf8EncodeChar

/-- `is_ascii_hexdigit` of a byte or of the code point of a character. -/
def isAsciiHexdigit (n : Nat) : Bool :=
  (48 ≤ n && n ≤ 57) || (65 ≤ n && n ≤ 70) || (97 ≤ n && n ≤ 102)

theorem lt_of_isAsciiHexdigit {n : Nat} (h : isAsciiHexdigit n = true) : n < 128 := by
  simp only [isAsciiHexdigit, Bool.or_eq_true, Bool.and_eq_true, decide_eq_true_eq] at h
  omega

/-- A hex digit is no whitespace. -/
theorem isWhitespace_of_isAsciiHexdigit {c : Char} (h : isAsciiHexdigit c.toNat = true) :
    isWhitespace c = false := by
  simp only [isAsciiHexdigit, Bool.or_eq_true, Bool.and_eq_true, decide_eq_true_eq] at h
  simp only [isWhitespace, Bool.or_eq_false_iff, Bool.and_eq_false_iff, decide_eq_false_iff_not,
    beq_eq_false_iff_ne]
  omega

theorem utf8EncodeChar_of_lt {c : Char} (h : c.toNat < 128) :
    String.utf8EncodeChar c = [UInt8.ofNat c.toNat] := by
  have hv : c.val.toNat ≤ 0x7f := Nat.le_of_lt_succ h
  rw [String.utf8EncodeChar]
  exact if_pos hv

/-- Every byte of a character outside ASCII has its high bit set. -/
theorem le_of_mem_utf8EncodeChar {c : Char} (h : 128 ≤ c.toNat) {b : UInt8}
    (hb : b ∈ String.utf8EncodeChar c) : 128 ≤ b.toNat := by
  have hv : ¬ c.val.toNat ≤ 0x7f := Nat.not_le.mpr h
  have hmod : ∀ k m, 0 < m → k % m < m := fun k _ hm ↦ Nat.mod_lt k hm
  simp only [String.utf8EncodeChar, hv, if_false] at hb
  split_ifs at hb
  all_goals
    simp only [List.mem_cons, List.not_mem_nil, or_false] at hb
    rcases hb with rfl | rfl | rfl | rfl
    all_goals simp only [UInt8.toNat_ofNat']; omega

theorem all_utf8EncodeChar (c : Char) :
    ((String.utf8EncodeChar c).all fun b ↦ isAsciiHexdigit b.toNat) = isAsciiHexdigit c.toNat := by
  by_cases h : c.toNat < 128
  · simp [utf8EncodeChar_of_lt h, UInt8.toNat_ofNat', Nat.mod_eq_of_lt (by omega : c.toNat < 256)]
  · have hc : isAsciiHexdigit c.toNat = false := by
      by_contra hd
      exact h (lt_of_isAsciiHexdigit (by simpa using hd))
    obtain ⟨b, hb⟩ := List.exists_mem_of_ne_nil _ (String.utf8EncodeChar_ne_nil (c := c))
    rw [hc, List.all_eq_false]
    refine ⟨b, hb, fun hd ↦ ?_⟩
    have := le_of_mem_utf8EncodeChar (Nat.not_lt.mp h) hb
    have := lt_of_isAsciiHexdigit hd
    omega

/-- All bytes of a text are hex digits exactly when all its characters are. -/
theorem all_bytes_isAsciiHexdigit (s : Str) :
    ((bytes s).all fun b ↦ isAsciiHexdigit b.toNat) = s.all fun c ↦ isAsciiHexdigit c.toNat := by
  induction s with
  | nil => rfl
  | cons c s ih =>
      rw [bytes, List.flatMap_cons, List.all_append, all_utf8EncodeChar, List.all_cons, ← ih]
      rfl

/-- The bytes of an ASCII text are its characters. -/
theorem bytes_of_ascii {s : Str} (h : ∀ c ∈ s, c.toNat < 128) :
    bytes s = s.map fun c ↦ UInt8.ofNat c.toNat := by
  induction s with
  | nil => rfl
  | cons c s ih =>
      rw [bytes, List.flatMap_cons, utf8EncodeChar_of_lt (h c (by simp)), List.map_cons,
        List.singleton_append]
      exact congrArg (_ :: ·) (ih fun d hd ↦ h d (by simp [hd]))

/-- A text of hex digits has one byte for each character. -/
theorem length_bytes {s : Str} (h : s.all (fun c ↦ isAsciiHexdigit c.toNat) = true) :
    (bytes s).length = s.length := by
  rw [bytes_of_ascii fun c hc ↦ lt_of_isAsciiHexdigit (List.all_eq_true.mp h c hc),
    List.length_map]

end Text

end Pwatch
