import Pwatch.Maps.Sequential
import Pwatch.Maps.Lookup

/-!
# Names of modules

`resolve_expression` on the base name of a mapped file and an offset.  The name is taken up to
the first `+` of the expression, so a file whose name has no `+` can be named, and a file
whose name has one cannot.
-/

namespace Pwatch.Maps

open Text

/-! ## Numbers with a `+` -/

section

variable {text : Str}

/-- What is read as a number after a prefix: a sign and digits. -/
theorem not_sublist_of_fromStrRadix {v : UInt64} (h : fromStrRadix 16 text = .ok v) :
    ¬ ['+', 'x'].Sublist text := by
  intro hsub
  obtain ⟨digits, rfl | rfl, -, hnum, -⟩ := (fromStrRadix_eq_ok (by omega) _ _).mp h
  · exact hnum.not_mem rfl (hsub.subset (.head _))
  · have hx : 'x' ∈ digits := List.singleton_sublist.mp (List.cons_sublist_cons.mp hsub)
    exact hnum.not_mem rfl hx

/-- No number has an `x` behind a `+`. -/
theorem parseNumericAddr_eq_none (h : ['+', 'x'].Sublist text) : parseNumericAddr text = none := by
  have hdigits : ∀ {hex}, ['+', 'x'].Sublist hex → (fromStrRadix 16 hex).toOption = none := by
    intro hex hsub
    cases hparsed : fromStrRadix 16 hex with
    | error kind => rfl
    | ok v => exact absurd hsub (not_sublist_of_fromStrRadix hparsed)
  -- neither prefix has a `+`
  have hbehind : ∀ {x hex}, x ≠ '+' → text = '0' :: x :: hex → ['+', 'x'].Sublist hex := by
    rintro x hex hx rfl
    rcases List.sublist_cons_iff.mp h with h | ⟨_, hcons, _⟩
    · rcases List.sublist_cons_iff.mp h with h | ⟨_, hcons, _⟩
      · exact h
      · exact absurd (List.cons.inj hcons).1.symm hx
    · exact absurd (List.cons.inj hcons).1 (by decide)
  unfold parseNumericAddr
  split
  · rfl
  split
  · rename_i hex hor
    rcases Option.or_eq_some_iff.mp hor with h0x | ⟨-, h0X⟩
    · exact hdigits (hbehind (by decide) (stripPrefix_eq_some.mp h0x))
    · exact hdigits (hbehind (by decide) (stripPrefix_eq_some.mp h0X))
  · split
    · exact hdigits h
    · rfl

/-- Trimming takes away neither. -/
theorem sublist_trim (h : ['+', 'x'].Sublist text) : ['+', 'x'].Sublist (trim text) := by
  obtain ⟨lead, trail, htext, hlead, htrail, -⟩ := trim_spec text
  have hblank : ∀ {s : Str}, Blank s → s.filter (fun c ↦ !isWhitespace c) = [] := fun hs ↦
    List.filter_eq_nil_iff.mpr fun c hc ↦ by simp [hs c hc]
  have hfilter : text.filter (fun c ↦ !isWhitespace c) =
      (trim text).filter fun c ↦ !isWhitespace c := by
    conv_lhs => rw [htext]
    rw [List.filter_append, List.filter_append, hblank hlead, hblank htrail, List.append_nil,
      List.nil_append]
  have hkept : (['+', 'x'] : Str).filter (fun c ↦ !isWhitespace c) = ['+', 'x'] := rfl
  rw [← hkept]
  exact (hfilter ▸ h.filter _).trans List.filter_sublist

end

/-! ## Expressions -/

section

variable {reading : Except Str (List ParsedRegion)} {regions : List ParsedRegion} {world : World}
  {pid : UInt32} {text : Str}

/-- A forced call returns what it has read. -/
theorem exec_regions (regions : List ParsedRegion) (pid : UInt32) (world : World) :
    ((Maps.regions pid true).exec (.ok regions) world).1 = .ok regions := by
  have hmiss : lookup world.cache (world.clock 0) pid true = none := rfl
  simp only [Maps.regions, Prog.exec, regionsWith, hmiss]
  rcases refresh_cases world.cache (world.clock 0) pid true regions with ⟨-, hr⟩ | ⟨hforce, -⟩
  · rw [hr]
  · cases hforce

/-- An expression that is no number is looked up in the regions that were read. -/
theorem exec_expressionAddr (h : parseNumericAddr (trim text) = none) :
    ((expressionAddr pid text).exec (.ok regions) world).1 =
      resolveModuleOffset (m := Id) (.ok regions) pid text := by
  rw [expressionAddr, h]
  simp only [resolveModuleOffset]
  cases parseModuleOffset text with
  | error message => rfl
  | ok parsed =>
      refine (congrArg Prod.fst (Prog.exec_bind _ _ _ _)).trans ?_
      rw [exec_regions]
      rfl

/-- One program after another, in the words of the `do` blocks. -/
theorem exec_monad_bind {α β : Type} (p : Prog α) (f : α → Prog β) :
    (p >>= f).exec reading world =
      (f (p.exec reading world).1).exec reading (p.exec reading world).2 :=
  Prog.exec_bind reading p f world

/-- The value of a resolved expression. -/
theorem exec_resolveExpression {addr : UInt64} :
    (∃ resolved, ((resolveExpression pid text).exec reading world).1 = .ok resolved ∧
      resolved.value = addr) ↔ ((expressionAddr pid text).exec reading world).1 = .ok addr := by
  rw [resolveExpression, exec_monad_bind]
  cases ((expressionAddr pid text).exec reading world).1 with
  | error message =>
      refine iff_of_false ?_ nofun
      rintro ⟨resolved, hresolved, -⟩
      cases hresolved
  | ok addr' =>
      dsimp only
      rw [exec_monad_bind]
      constructor
      · rintro ⟨resolved, hresolved, rfl⟩
        cases hresolved
        rfl
      · intro haddr
        exact ⟨_, rfl, Except.ok.inj haddr⟩

end

/-- The text is the name, `+` and the offset in hex, with any whitespace around them. -/
def NamesOffset (text name : Str) (offset : UInt64) : Prop :=
  ∃ lead left right trail digits, text =
      lead ++ name ++ left ++ '+' :: (right ++ ("0x".toList ++ digits) ++ trail) ∧
    Blank lead ∧ Blank left ∧ Blank right ∧ Blank trail ∧
      digits ≠ [] ∧ IsNumeral 16 digits ∧ ofDigits 16 digits = offset.toNat

section

variable {text name : Str} {offset : UInt64}

theorem not_mem_of_blank {s : Str} (h : Blank s) : '+' ∉ s := fun hmem ↦ by
  have hblank := h '+' hmem
  cases hblank

theorem NamesOffset.sublist (h : NamesOffset text name offset) : ['+', 'x'].Sublist text := by
  obtain ⟨lead, left, right, trail, digits, rfl, -⟩ := h
  refine (List.Sublist.cons_cons '+' (List.singleton_sublist.mpr ?_)).trans
    (List.sublist_append_right _ _)
  simp

/-- A name without `+` is found, and its offset read. -/
theorem NamesOffset.parsed (h : NamesOffset text name offset) (hplus : '+' ∉ name)
    (hne : name ≠ []) (htrimmed : Trimmed name) : parseModuleOffset text = .ok (name, offset) := by
  obtain ⟨lead, left, right, trail, digits, rfl, hlead, hleft, hright, htrail, hdigits, hnum,
    hvalue⟩ := h
  have hbefore : '+' ∉ lead ++ name ++ left := by
    simp [not_mem_of_blank hlead, hplus, not_mem_of_blank hleft]
  have hoffset : trim (right ++ ("0x".toList ++ digits) ++ trail) = "0x".toList ++ digits :=
    trim_eq hright htrail (trimmed_prefix_append (.inr (.inl rfl)) hdigits hnum) (by simp)
  have hnumber : parseNumericAddr ("0x".toList ++ digits) = some offset := by
    rw [parseNumericAddr, if_neg (by simp), stripPrefix_append]
    simp only [Option.some_or]
    have hparsed : fromStrRadix 16 digits = .ok offset :=
      (fromStrRadix_of_isNumeral (by omega) hdigits hnum offset).mpr
        ⟨hvalue ▸ offset.toNat_lt, by rw [hvalue, UInt64.ofNat_toNat]⟩
    rw [hparsed]
    rfl
  rw [parseModuleOffset, splitOnce_append hbefore]
  simp only [trim_eq hlead hleft htrimmed hne, if_neg hne, hoffset, hnumber]

/-- A name with `+` is cut there, and what stands behind is no number. -/
theorem NamesOffset.not_parsed (h : NamesOffset text name offset) (hplus : '+' ∈ name) :
    ∃ message, parseModuleOffset text = .error message := by
  obtain ⟨lead, left, right, trail, digits, rfl, hlead, -⟩ := h
  obtain ⟨before, after, rfl, hbefore⟩ := List.eq_append_cons_of_mem hplus
  -- the `+` that joins the offset is behind the one that is cut at
  set rest := after ++ left ++ '+' :: (right ++ ("0x".toList ++ digits) ++ trail) with hrest
  have hsub : ['+', 'x'].Sublist rest := by
    refine (List.Sublist.cons_cons '+' (List.singleton_sublist.mpr ?_)).trans
      (List.sublist_append_right _ _)
    simp
  have hcut : splitOnce '+' (lead ++ before ++ '+' :: rest) = some (lead ++ before, rest) := by
    refine splitOnce_append ?_ rest
    simp [not_mem_of_blank hlead, hbefore]
  have htext : lead ++ (before ++ '+' :: after) ++ left ++
      '+' :: (right ++ ("0x".toList ++ digits) ++ trail) = lead ++ before ++ '+' :: rest := by
    simp [hrest]
  rw [htext, parseModuleOffset, hcut]
  simp only [parseNumericAddr_eq_none (sublist_trim hsub)]
  split
  · exact ⟨_, rfl⟩
  · exact ⟨_, rfl⟩

/-- The text of a named offset is no number. -/
theorem NamesOffset.exec_expressionAddr (h : NamesOffset text name offset) (pid : UInt32)
    (regions : List ParsedRegion) (world : World) :
    ((expressionAddr pid text).exec (.ok regions) world).1 =
      resolveModuleOffset (m := Id) (.ok regions) pid text :=
  Maps.exec_expressionAddr (parseNumericAddr_eq_none (sublist_trim h.sublist))

end

/-! ## Files -/

theorem fileName_ne_nil {path name : Str} (h : fileName path = some name) : name ≠ [] := by
  have hlast := (Option.filter_eq_some_iff.mp h).1
  have hmem := (List.mem_filter.mp (List.mem_of_getLast? hlast)).2
  exact (of_decide_eq_true hmem).1

/-- A region matches the base name of its file. -/
theorem matches_fileName {region : ParsedRegion} {path name : Str}
    (hpath : region.region.pathname = some path) (hname : fileName path = some name) :
    Matches name region := by
  refine ⟨by rw [hpath]; rfl, ?_⟩
  rw [matchesModule, hpath, Option.getD_some]
  simp [hname]

/-- **A mapped file is named by its base name, unless that has a `+`.**  The expression is the
base name, `+` and an offset in hex, with any whitespace around them; its value is to be the
start of the first region that matches the name, plus the offset. -/
theorem module_named_iff {regions : List ParsedRegion} {region : ParsedRegion}
    (hmem : region ∈ regions) {path name : Str} (hpath : region.region.pathname = some path)
    (hname : fileName path = some name) (htrimmed : Trimmed name) :
    ∃ first, firstMatch name regions = some first ∧
      ∀ (offset : UInt64), first.start.toNat + offset.toNat < 2 ^ 64 →
        ∀ text, NamesOffset text name offset → ∀ pid world,
          ((∃ resolved, ((resolveExpression pid text).exec (.ok regions) world).1 =
              .ok resolved ∧ resolved.value.toNat = first.start.toNat + offset.toNat) ↔
            '+' ∉ name) := by
  obtain ⟨first, hfirst⟩ : ∃ first, firstMatch name regions = some first := by
    rw [← Option.isSome_iff_exists, firstMatch, List.find?_isSome]
    exact ⟨region, hmem, decide_eq_true (matches_fileName hpath hname)⟩
  refine ⟨first, hfirst, fun offset hlt text htext pid world ↦ ⟨?_, fun hplus ↦ ?_⟩⟩
  · rintro ⟨resolved, hresolved, -⟩ hplus
    obtain ⟨message, hparsed⟩ := htext.not_parsed hplus
    have haddr := exec_resolveExpression.mp ⟨resolved, hresolved, rfl⟩
    rw [htext.exec_expressionAddr, resolveModuleOffset, hparsed] at haddr
    cases haddr
  · have hparsed := htext.parsed hplus (fileName_ne_nil hname) htrimmed
    have hsum : (UInt64.ofNat (first.start.toNat + offset.toNat)).toNat =
        first.start.toNat + offset.toNat := UInt64.toNat_ofNat_of_lt' hlt
    have haddr : ((expressionAddr pid text).exec (.ok regions) world).1 =
        .ok (UInt64.ofNat (first.start.toNat + offset.toNat)) := by
      rw [htext.exec_expressionAddr, resolveModuleOffset_of_parsed hparsed]
      exact moduleAddress_eq_ok.mpr ⟨first, hfirst, hsum.symm⟩
    obtain ⟨resolved, hresolved, hvalue⟩ := exec_resolveExpression.mpr haddr
    exact ⟨resolved, hresolved, by rw [hvalue, hsum]⟩

/-- One page of a file. -/
def filePage (start : UInt64) (path : Str) : ParsedRegion :=
  ⟨start, start + 0x1000, ⟨[], [], "r-xp".toList, [], [], 0, some path⟩⟩

/-- A name that reads like a number, behind the same name in capitals. -/
theorem module_named_iff_add :
    ∃ resolved, ((resolveExpression 7 " add + 0x2c ".toList).exec
      (.ok [filePage 0x1000 "/opt/ADD".toList, filePage 0x2000 "/lib/add".toList])
        ⟨fun _ ↦ 0, fun _ ↦ none⟩).1 = .ok resolved ∧ resolved.value.toNat = 0x102c := by
  have hmem : filePage 0x2000 "/lib/add".toList ∈
      [filePage 0x1000 "/opt/ADD".toList, filePage 0x2000 "/lib/add".toList] := .tail _ (.head _)
  have hspace : Blank [' '] := List.forall_mem_singleton.mpr rfl
  have htext : NamesOffset " add + 0x2c ".toList "add".toList 0x2c :=
    ⟨[' '], [' '], [' '], [' '], "2c".toList, by decide, hspace, hspace, hspace, hspace,
      by decide, by decide, by decide⟩
  have hname : fileName "/lib/add".toList = some "add".toList := by decide
  obtain ⟨first, hfirst, hnamed⟩ := module_named_iff hmem rfl hname (by decide)
  have hcapitals : firstMatch "add".toList
      [filePage 0x1000 "/opt/ADD".toList, filePage 0x2000 "/lib/add".toList] =
        some (filePage 0x1000 "/opt/ADD".toList) := by decide
  obtain rfl := Option.some.inj (hcapitals.symm.trans hfirst)
  exact (hnamed 0x2c (by decide) _ htext 7 _).mpr (by decide)

/-- The C++ library. -/
theorem not_module_named :
    ¬ ∀ (regions : List ParsedRegion) (region first : ParsedRegion) (path name text : Str)
      (offset : UInt64) (pid : UInt32) (world : World),
      KernelOrder regions → region ∈ regions → region.region.pathname = some path →
      fileName path = some name → Trimmed name → firstMatch name regions = some first →
      first.start.toNat + offset.toNat < 2 ^ 64 → NamesOffset text name offset →
        ∃ resolved, ((resolveExpression pid text).exec (.ok regions) world).1 = .ok resolved ∧
          resolved.value.toNat = first.start.toNat + offset.toNat := by
  intro hclaim
  let region := filePage 0x1000 "/lib/libstdc++.so.6".toList
  let text := "libstdc++.so.6+0x10".toList
  have hkernel : KernelOrder [region] := ⟨List.pairwise_singleton .., List.pairwise_singleton ..⟩
  have htext : NamesOffset text "libstdc++.so.6".toList 0x10 :=
    ⟨[], [], [], [], "10".toList, by decide, nofun, nofun, nofun, nofun, by decide, by decide,
      by decide⟩
  obtain ⟨resolved, hresolved, -⟩ := hclaim [region] region region _ _ text 0x10 7
    ⟨fun _ ↦ 0, fun _ ↦ none⟩ hkernel (.head _) rfl (by decide) (by decide) (by decide) (by decide)
    htext
  have haddr := exec_resolveExpression.mp ⟨resolved, hresolved, rfl⟩
  -- the module is `libstdc`, and the offset `+.so.6+0x10`
  have hinvalid : parseModuleOffset text =
      .error "invalid module offset: libstdc++.so.6+0x10".toList := by decide
  rw [htext.exec_expressionAddr, resolveModuleOffset, hinvalid] at haddr
  cases haddr

end Pwatch.Maps
