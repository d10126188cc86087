import Pwatch.Maps.Lookup
import Pwatch.Memory.Request

/-!
# Three parsers of addresses

`parse_addr` of `src/watch.rs` reads the addresses of the command line,
`parse_numeric_addr` of `src/maps.rs` those of expressions, and `validate` of
`src/memory_api.rs` those of memory requests.  They read one notation, hex digits behind
an optional `0x` or `0X`.  They agree on it but for two slips: `parse_addr` does not know
the upper-case prefix, and a `+` that `from_str_radix` takes is caught by `validate` alone
(`agree_iff`).
-/

namespace Pwatch.Watch

open Text Maps Memory

/-! ## The code -/

/-- `parse_addr`. -/
def parseAddr (s : Str) : Option UInt64 :=
  (fromStrRadix 16 ((stripPrefix "0x".toList s).getD s)).toOption

/-! ## The notation -/

/-- The text is the given mark and a hex numeral of the number. -/
def Spells (mark s : Str) (v : UInt64) : Prop :=
  ∃ digits, s = mark ++ digits ∧ NumeralOf 16 digits v

/-- The text is spelled with one of the marks. -/
def SpellsAny (marks : List Str) (s : Str) (v : UInt64) : Prop := ∃ mark ∈ marks, Spells mark s v

/-- The prefixes of the notation. -/
def prefixes : List Str := [[], "0x".toList, "0X".toList]

/-- Hex digits behind an optional prefix, and nothing else. -/
abbrev HexAddress (s : Str) (v : UInt64) : Prop := SpellsAny prefixes s v

/-- What stands in front of the digits does not end like a numeral. -/
def IsMark (mark : Str) : Prop := ∀ c ∈ mark.getLast?, toDigit 16 c = none

instance (mark : Str) : Decidable (IsMark mark) := Option.decidableForallMem _

variable {s t mark mark' : Str} {v w : UInt64}

/-- The digits at the end of a text determine the mark in front of them. -/
theorem Spells.rdropWhile_eq (hmark : IsMark mark) (h : Spells mark s v) :
    s.rdropWhile (fun c ↦ (toDigit 16 c).isSome) = mark := by
  obtain ⟨digits, rfl, hdigits⟩ := h
  have hdrop : (mark ++ digits).rdropWhile (fun c ↦ (toDigit 16 c).isSome) =
      mark.rdropWhile (fun c ↦ (toDigit 16 c).isSome) := by
    have hall : digits.reverse.dropWhile (fun c ↦ (toDigit 16 c).isSome) = [] :=
      List.dropWhile_eq_nil_iff.mpr fun c hc ↦ hdigits.isNumeral c (List.mem_reverse.mp hc)
    rw [List.rdropWhile, List.reverse_append, List.dropWhile_append, hall]
    rfl
  rw [hdrop, List.rdropWhile_eq_self_iff]
  intro hne
  simp [hmark _ (List.getLast?_eq_some_getLast hne)]

/-- A text is spelled in one way. -/
theorem Spells.mark_unique (hmark : IsMark mark) (hmark' : IsMark mark') (h : Spells mark s v)
    (h' : Spells mark' s w) : mark = mark' :=
  (h.rdropWhile_eq hmark).symm.trans (h'.rdropWhile_eq hmark')

/-- Of a set of marks a text can only be spelled with its own. -/
theorem SpellsAny.mem {marks : List Str} (hmarks : ∀ m ∈ marks, IsMark m) (hmark : IsMark mark)
    (h : SpellsAny marks s w) (hs : Spells mark s v) : mark ∈ marks := by
  obtain ⟨m, hm, hspells⟩ := h
  rwa [hs.mark_unique hmark (hmarks m hm) hspells]

/-- A text that begins with a prefix is spelled with a mark that does. -/
theorem Spells.prefix_mark {pre : Str} (hpre : IsMark pre) (h : Spells mark (pre ++ t) v) :
    pre <+: mark := by
  obtain ⟨digits, heq, hdigits⟩ := h
  have hmark : mark <+: pre ++ t := ⟨digits, heq.symm⟩
  rcases List.prefix_or_prefix_of_prefix (List.prefix_append pre t) hmark with h | ⟨r, rfl⟩
  · exact h
  · -- the rest of the prefix stands among the digits, where no mark ends
    rw [List.append_assoc, List.append_cancel_left_eq] at heq
    cases hlast : r.getLast? with
    | none => rw [List.getLast?_eq_none_iff.mp hlast, List.append_nil]
    | some c =>
        have hc : c ∈ digits := by
          rw [← heq]
          exact List.mem_append_left _ (List.mem_of_getLast? hlast)
        have hnone : toDigit 16 c = none := hpre c (by simp [List.getLast?_append, hlast])
        exact absurd hc (hdigits.isNumeral.not_mem hnone)

/-- Behind a prefix the marks are spelled that begin with it. -/
theorem spellsAny_of_some {pre : Str} {marks : List Str} (hpre : IsMark pre)
    (hstrip : stripPrefix pre s = some t) :
    SpellsAny marks s v ↔ SpellsAny (marks.filterMap (stripPrefix pre)) t v := by
  obtain rfl := stripPrefix_eq_some.mp hstrip
  constructor
  · rintro ⟨m, hm, h⟩
    obtain ⟨m', rfl⟩ := h.prefix_mark hpre
    obtain ⟨digits, heq, hdigits⟩ := h
    rw [List.append_assoc, List.append_cancel_left_eq] at heq
    exact ⟨m', List.mem_filterMap.mpr ⟨_, hm, stripPrefix_append pre m'⟩, digits, heq, hdigits⟩
  · rintro ⟨m', hm', digits, rfl, hdigits⟩
    obtain ⟨m, hm, hstrip'⟩ := List.mem_filterMap.mp hm'
    obtain rfl := stripPrefix_eq_some.mp hstrip'
    exact ⟨_, hm, digits, (List.append_assoc _ _ _).symm, hdigits⟩

/-- Without the prefix only marks are spelled that do not begin with it. -/
theorem spellsAny_of_none {pre : Str} {marks : List Str} (hstrip : stripPrefix pre s = none) :
    SpellsAny marks s v ↔ SpellsAny (marks.filter fun m ↦ (stripPrefix pre m).isNone) s v := by
  constructor
  · rintro ⟨m, hm, digits, rfl, hdigits⟩
    refine ⟨m, List.mem_filter.mpr ⟨hm, ?_⟩, digits, rfl, hdigits⟩
    cases hm' : stripPrefix pre m with
    | none => rfl
    | some m' =>
        obtain rfl := stripPrefix_eq_some.mp hm'
        rw [List.append_assoc, stripPrefix_append] at hstrip
        cases hstrip
  · rintro ⟨m, hm, h⟩
    exact ⟨m, (List.mem_filter.mp hm).1, h⟩

/-! ## What each parser reads -/

/-- What `from_str_radix` takes in front of the digits. -/
def radixMarks : List Str := [[], ['+']]

/-- What the command line takes: a sign, the lower-case prefix, or both. -/
def cliMarks : List Str := [[], ['+'], "0x".toList, "0x+".toList]

/-- What expressions take: either prefix, and a sign behind it. -/
def numericMarks : List Str := [[], "0x".toList, "0x+".toList, "0X".toList, "0X+".toList]

theorem toOption_fromStrRadix_eq_some :
    (fromStrRadix 16 s).toOption = some v ↔ SpellsAny radixMarks s v := by
  have hok : (fromStrRadix 16 s).toOption = some v ↔ fromStrRadix 16 s = .ok v := by
    cases fromStrRadix 16 s <;> simp [Except.toOption]
  rw [hok, fromStrRadix_eq_ok_iff_numeralOf (by omega)]
  simp [SpellsAny, Spells, radixMarks]

theorem parseAddr_eq_some : parseAddr s = some v ↔ SpellsAny cliMarks s v := by
  rw [parseAddr, toOption_fromStrRadix_eq_some]
  cases hx : stripPrefix "0x".toList s with
  | none =>
      have hmarks : cliMarks.filter (fun m ↦ (stripPrefix "0x".toList m).isNone) = radixMarks := rfl
      rw [spellsAny_of_none hx, hmarks, Option.getD_none]
  | some t =>
      have hmarks : cliMarks.filterMap (stripPrefix "0x".toList) = radixMarks := rfl
      rw [spellsAny_of_some (by decide) hx, hmarks, Option.getD_some]

/-- Where only hex digits may stand the sign is refused. -/
theorem spellsAny_of_digits : (if (bytes s).all fun b ↦ isAsciiHexdigit b.toNat then
      (fromStrRadix 16 s).toOption else none) = some v ↔ SpellsAny [[]] s v := by
  have hnumeral : (bytes s).all (fun b ↦ isAsciiHexdigit b.toNat) = true ↔ IsNumeral 16 s := by
    rw [all_bytes_isAsciiHexdigit, isNumeral_sixteen_iff]
  simp only [hnumeral]
  split_ifs with hall
  · have hplus : ¬ Spells ['+'] s v := by
      rintro ⟨digits, rfl, -⟩
      exact hall.not_mem (toDigit_plus 16) (.head _)
    rw [toOption_fromStrRadix_eq_some]
    simp [SpellsAny, radixMarks, hplus]
  · refine iff_of_false nofun ?_
    rintro ⟨m, hm, digits, rfl, hdigits⟩
    obtain rfl := List.mem_singleton.mp hm
    exact hall hdigits.isNumeral

theorem parseNumericAddr_eq_some : parseNumericAddr s = some v ↔ SpellsAny numericMarks s v := by
  rw [parseNumericAddr]
  by_cases hnil : s = []
  · subst hnil
    refine iff_of_false (fun hsome ↦ by cases hsome) ?_
    rintro ⟨m, -, digits, heq, hdigits⟩
    exact hdigits.ne_nil (List.append_eq_nil_iff.mp heq.symm).2
  rw [if_neg hnil]
  cases hx : stripPrefix "0x".toList s with
  | some t =>
      have hmarks : numericMarks.filterMap (stripPrefix "0x".toList) = radixMarks := rfl
      rw [spellsAny_of_some (by decide) hx, hmarks]
      exact toOption_fromStrRadix_eq_some
  | none =>
      rw [spellsAny_of_none hx]
      cases hX : stripPrefix "0X".toList s with
      | some t =>
          have hmarks : (numericMarks.filter fun m ↦ (stripPrefix "0x".toList m).isNone).filterMap
              (stripPrefix "0X".toList) = radixMarks := rfl
          rw [spellsAny_of_some (by decide) hX, hmarks]
          exact toOption_fromStrRadix_eq_some
      | none =>
          have hmarks : (numericMarks.filter fun m ↦ (stripPrefix "0x".toList m).isNone).filter
              (fun m ↦ (stripPrefix "0X".toList m).isNone) = [[]] := rfl
          rw [spellsAny_of_none hX, hmarks]
          exact spellsAny_of_digits

/-- Memory requests: either prefix and at most sixteen digits. -/
theorem denotes_iff_spells (hs : Trimmed s) :
    Memory.Denotes s v ↔ ∃ mark ∈ prefixes, ∃ digits, s = mark ++ digits ∧
      NumeralOf 16 digits v ∧ digits.length ≤ 16 := by
  constructor
  · rintro ⟨lead, pre, digits, trail, rfl, hlead, htrail, hpre, hpos, hle, hnum, hvalue⟩
    have hne : digits ≠ [] := List.ne_nil_of_length_pos hpos
    have htrim := trim_eq hlead htrail (trimmed_prefix_append hpre hne hnum)
      (List.append_ne_nil_of_right_ne_nil pre hne)
    rw [trim_eq_self hs] at htrim
    exact ⟨pre, by simpa [prefixes] using hpre, digits, htrim, ⟨hne, hnum, hvalue⟩, hle⟩
  · rintro ⟨mark, hmark, digits, rfl, hdigits, hle⟩
    refine ⟨[], mark, digits, [], by simp, by simp [Blank], by simp [Blank],
      by simpa [prefixes] using hmark, List.length_pos_of_ne_nil hdigits.ne_nil, hle,
      hdigits.isNumeral, hdigits.ofDigits_eq⟩

/-! ## Where they agree -/

/-- The three parsers read the text as the notation has it. -/
structure Agree (s : Str) : Prop where
  same : parseAddr s = parseNumericAddr s
  parseAddr_iff : ∀ v, parseAddr s = some v ↔ HexAddress s v
  parseNumericAddr_iff : ∀ v, parseNumericAddr s = some v ↔ HexAddress s v
  validate_eq : ∀ pid : UInt32, 1 ≤ pid.toNat → pid.toNat ≤ 2 ^ 31 - 1 →
    ∀ mark ∈ prefixes, ∀ digits v, s = mark ++ digits → NumeralOf 16 digits v →
      digits.length ≤ 16 → validate pid s 1 = .ok v
  validate_rejects : ∀ pid : UInt32, 1 ≤ pid.toNat → pid.toNat ≤ 2 ^ 31 - 1 →
    parseAddr s = none → parseNumericAddr s = none → ∀ v, validate pid s 1 ≠ .ok v

/-- What some parser takes that the notation does not have, and the prefix that the
command line does not know. -/
def misreadMarks : List Str := ["0X".toList, ['+'], "0x+".toList, "0X+".toList]

/-- A numeral below `2 ^ 64` behind the upper-case prefix, or behind a sign that stands
first or after a prefix. -/
def Misread (s : Str) : Prop := ∃ v, SpellsAny misreadMarks s v

/-- A request for one byte is refused for its address only. -/
theorem validate_one_iff {pid : UInt32} (hpos : 1 ≤ pid.toNat) (hle : pid.toNat ≤ 2 ^ 31 - 1) :
    validate pid s 1 = .ok v ↔ Memory.Denotes s v := by
  rw [validate_eq_ok_iff]
  exact ⟨fun h ↦ h.denotes, fun h ↦ ⟨hpos, hle, le_refl 1, by omega, h, by
    have := v.toNat_lt
    omega⟩⟩

/-- On a text that is not misread each set of marks amounts to the prefixes. -/
theorem spellsAny_iff_of_not_misread {marks : List Str} (h : ¬ Misread s)
    (hmarks : ∀ m ∈ marks, m ∈ prefixes ∨ m ∈ misreadMarks)
    (hprefixes : ∀ m ∈ prefixes, m ∈ marks ∨ m ∈ misreadMarks) :
    SpellsAny marks s v ↔ HexAddress s v := by
  constructor
  · rintro ⟨m, hm, hspells⟩
    exact ⟨m, (hmarks m hm).resolve_right fun hm' ↦ h ⟨v, m, hm', hspells⟩, hspells⟩
  · rintro ⟨m, hm, hspells⟩
    exact ⟨m, (hprefixes m hm).resolve_right fun hm' ↦ h ⟨v, m, hm', hspells⟩, hspells⟩

/-- A misread text is one on which two parsers differ. -/
theorem Agree.not_misread (h : Agree s) : ¬ Misread s := by
  rintro ⟨v, mark, hmark, hspells⟩
  have hisMark : ∀ m ∈ misreadMarks, IsMark m := by decide
  have hcli : HexAddress s v ↔ SpellsAny cliMarks s v :=
    (h.parseAddr_iff v).symm.trans parseAddr_eq_some
  have hnumeric : SpellsAny cliMarks s v ↔ SpellsAny numericMarks s v := by
    rw [← parseAddr_eq_some, ← parseNumericAddr_eq_some, h.same]
  have hmem : ∀ {marks}, (∀ m ∈ marks, IsMark m) → SpellsAny marks s v → mark ∈ marks :=
    fun hmarks hany ↦ hany.mem hmarks (hisMark mark hmark) hspells
  simp only [misreadMarks, List.mem_cons, List.not_mem_nil, or_false] at hmark
  rcases hmark with rfl | rfl | rfl | rfl
  · exact absurd (hmem (by decide) (hcli.mp ⟨_, by decide, hspells⟩)) (by decide)
  · exact absurd (hmem (by decide) (hcli.mpr ⟨_, by decide, hspells⟩)) (by decide)
  · exact absurd (hmem (by decide) (hcli.mpr ⟨_, by decide, hspells⟩)) (by decide)
  · exact absurd (hmem (by decide) (hnumeric.mpr ⟨_, by decide, hspells⟩)) (by decide)

/-- **The address parsers agree exactly on the texts that are not misread.** -/
theorem agree_iff (hs : Trimmed s) : Agree s ↔ ¬ Misread s := by
  refine ⟨Agree.not_misread, fun h ↦ ?_⟩
  have hcli : ∀ v, parseAddr s = some v ↔ HexAddress s v := fun v ↦
    parseAddr_eq_some.trans (spellsAny_iff_of_not_misread h (by decide) (by decide))
  have hnumeric : ∀ v, parseNumericAddr s = some v ↔ HexAddress s v := fun v ↦
    parseNumericAddr_eq_some.trans (spellsAny_iff_of_not_misread h (by decide) (by decide))
  exact {
    same := Option.ext fun v ↦ (hcli v).trans (hnumeric v).symm
    parseAddr_iff := hcli
    parseNumericAddr_iff := hnumeric
    validate_eq := by
      intro pid hpos hle mark hmark digits v heq hdigits hlen
      rw [validate_one_iff hpos hle, denotes_iff_spells hs]
      exact ⟨mark, hmark, digits, heq, hdigits, hlen⟩
    validate_rejects := by
      intro pid hpos hle hnone _ v hok
      rw [validate_one_iff hpos hle, denotes_iff_spells hs] at hok
      obtain ⟨mark, hmark, digits, heq, hdigits, -⟩ := hok
      rw [(hcli v).mpr ⟨mark, hmark, digits, heq, hdigits⟩] at hnone
      cases hnone }

/-- An address with a lower-case prefix. -/
theorem agree_iff_prefixed : Agree "0x10".toList := by
  refine (agree_iff (by decide)).mpr ?_
  rintro ⟨v, hmisread⟩
  have hspells : Spells "0x".toList "0x10".toList 16 :=
    ⟨"10".toList, rfl, by decide, by decide, by decide⟩
  exact absurd (hmisread.mem (by decide) (by decide) hspells) (by decide)

/-- `+1` is a number on the command line and none anywhere else. -/
theorem not_agree : ¬ ∀ s, Trimmed s → Agree s := by
  intro h
  have hsame := (h "+1".toList (by decide)).same
  exact absurd hsame (by decide)

end Pwatch.Watch
