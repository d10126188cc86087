import Pwatch.Text.Number
import Mathlib.Data.List.Chain

/-!
# Words and lines of a text

What `split_whitespace` and `lines` return.  Cutting a text at a whitespace character
cuts the list of its words (`splitWhitespace_append_cons`), so the words of a text that
is put together from fields are read off field by field.  Joining the words with single
spaces gives the text back exactly when it had no other whitespace
(`intercalate_splitWhitespace_iff`).
-/

namespace Pwatch.Text

/-! ## Words -/

/-- A non-empty text without whitespace. -/
def IsField (s : Str) : Prop := s ≠ [] ∧ ∀ c ∈ s, isWhitespace c = false

instance (s : Str) : Decidable (IsField s) :=
  @instDecidableAnd _ _ inferInstance (List.decidableBAll _ s)

theorem NumeralOf.isField {radix : Nat} {text : Str} {n : UInt64} (h : NumeralOf radix text n) :
    IsField text :=
  ⟨h.ne_nil, fun c hc ↦ isWhitespace_of_isSome_toDigit (h.isNumeral c hc)⟩

@[simp] theorem splitWhitespace_nil : splitWhitespace [] = [] := rfl

/-- A whitespace character ends one word and begins another. -/
theorem splitWhitespace_append_cons {c : Char} (hc : isWhitespace c = true) (s t : Str) :
    splitWhitespace (s ++ c :: t) = splitWhitespace s ++ splitWhitespace t := by
  rw [splitWhitespace, List.splitOnP_append_cons s t hc, List.filter_append]
  rfl

theorem splitWhitespace_of_isField {w : Str} (hw : IsField w) : splitWhitespace w = [w] := by
  rw [splitWhitespace, List.splitOnP_eq_singleton hw.2, List.filter_cons_of_pos (by simp [hw.1])]
  rfl

/-- A field with whitespace behind it is the first word. -/
theorem splitWhitespace_field_cons {w : Str} {c : Char} (hw : IsField w)
    (hc : isWhitespace c = true) (s : Str) :
    splitWhitespace (w ++ c :: s) = w :: splitWhitespace s := by
  rw [splitWhitespace_append_cons hc, splitWhitespace_of_isField hw, List.singleton_append]

theorem splitWhitespace_cons {c : Char} (hc : isWhitespace c = true) (s : Str) :
    splitWhitespace (c :: s) = splitWhitespace s :=
  splitWhitespace_append_cons hc [] s

theorem splitWhitespace_concat {c : Char} (hc : isWhitespace c = true) (s : Str) :
    splitWhitespace (s ++ [c]) = splitWhitespace s := by
  rw [splitWhitespace_append_cons hc, splitWhitespace_nil, List.append_nil]

/-- Whitespace in front holds no word. -/
theorem splitWhitespace_blank_append {lead : Str} (h : Blank lead) (s : Str) :
    splitWhitespace (lead ++ s) = splitWhitespace s := by
  induction lead with
  | nil => rfl
  | cons c lead ih =>
      rw [List.cons_append, splitWhitespace_cons (h c (by simp))]
      exact ih fun d hd ↦ h d (by simp [hd])

/-- How a text that does not begin with whitespace begins. -/
theorem exists_field {s : Str} (hne : s ≠ []) (hs : ∀ c ∈ s.head?, isWhitespace c = false) :
    ∃ w, IsField w ∧ (s = w ∨ ∃ c t, s = w ++ c :: t ∧ isWhitespace c = true) := by
  refine ⟨s.takeWhile fun c ↦ !isWhitespace c, ⟨?_, fun c hc ↦ ?_⟩, ?_⟩
  · obtain ⟨c, s, rfl⟩ := List.exists_cons_of_ne_nil hne
    simp [hs c (by simp)]
  · simpa using List.mem_takeWhile_imp hc
  · have hsplit := List.takeWhile_append_dropWhile (p := fun c ↦ !isWhitespace c) (l := s)
    cases hdrop : s.dropWhile fun c ↦ !isWhitespace c with
    | nil =>
        rw [hdrop, List.append_nil] at hsplit
        exact .inl hsplit.symm
    | cons c t =>
        have hc := List.head?_dropWhile_not (fun c ↦ !isWhitespace c) s
        rw [hdrop] at hc
        exact .inr ⟨c, t, by rw [← hdrop, hsplit], by simpa using hc⟩

/-- A text has no word exactly when it is blank. -/
theorem splitWhitespace_eq_nil_iff {s : Str} : splitWhitespace s = [] ↔ Blank s := by
  constructor
  · intro h
    induction s with
    | nil => simp [Blank]
    | cons c s ih =>
        by_cases hc : isWhitespace c = true
        · rw [splitWhitespace_cons hc] at h
          exact List.forall_mem_cons.mpr ⟨hc, ih h⟩
        · obtain ⟨w, hw, hws | ⟨d, t, hws, hd⟩⟩ :=
            exists_field (s := c :: s) (by simp) (by simpa using hc)
          · rw [hws, splitWhitespace_of_isField hw] at h
            cases h
          · rw [hws, splitWhitespace_field_cons hw hd] at h
            cases h
  · intro h
    have hblank := splitWhitespace_blank_append h []
    rwa [List.append_nil] at hblank

/-- Every word is a field. -/
theorem isField_of_mem_splitWhitespace {s w : Str} (h : w ∈ splitWhitespace s) : IsField w := by
  induction hlen : s.length using Nat.strong_induction_on generalizing s with
  | _ n ih =>
      cases s with
      | nil => simp at h
      | cons c s =>
          by_cases hc : isWhitespace c = true
          · rw [splitWhitespace_cons hc] at h
            exact ih s.length (by simp [← hlen]) h rfl
          · obtain ⟨v, hv, hvs | ⟨d, t, hvs, hd⟩⟩ :=
              exists_field (s := c :: s) (by simp) (by simpa using hc)
            · rw [hvs, splitWhitespace_of_isField hv, List.mem_singleton] at h
              rwa [h]
            · rw [hvs, splitWhitespace_field_cons hv hd] at h
              rcases List.mem_cons.mp h with rfl | h
              · exact hv
              · have hlt : t.length < n := by
                  rw [← hlen, hvs, List.length_append, List.length_cons]
                  omega
                exact ih t.length hlt h rfl

/-! ## Single spaces -/

/-- The only whitespace in the text is single spaces. -/
def SingleSpaced (s : Str) : Prop :=
  (∀ c ∈ s, isWhitespace c = true → c = ' ') ∧
    s.IsChain fun c d ↦ isWhitespace c = false ∨ isWhitespace d = false

instance (s : Str) : Decidable (SingleSpaced s) :=
  @instDecidableAnd _ _ (List.decidableBAll _ s) inferInstance

theorem IsField.singleSpaced {w : Str} (hw : IsField w) : SingleSpaced w := by
  refine ⟨fun c hc hws ↦ ?_, ?_⟩
  · rw [hw.2 c hc] at hws
    cases hws
  · refine List.Pairwise.isChain (List.pairwise_of_forall_mem_list ?_)
    exact fun c hc _ _ ↦ .inl (hw.2 c hc)

/-- One whitespace character between a field and a text. -/
theorem singleSpaced_field_cons {w : Str} {c : Char} (hw : IsField w)
    (hc : isWhitespace c = true) (t : Str) :
    SingleSpaced (w ++ c :: t) ↔
      c = ' ' ∧ SingleSpaced t ∧ ∀ d ∈ t.head?, isWhitespace d = false := by
  have hlast : ∀ d ∈ w.getLast?, isWhitespace d = false := fun d hd ↦
    hw.2 d (List.mem_of_getLast? hd)
  rw [SingleSpaced, List.isChain_append, List.isChain_cons]
  constructor
  · rintro ⟨hall, -, ⟨hhead, ht⟩, -⟩
    refine ⟨hall c (by simp) hc, ⟨fun d hd ↦ hall d (by simp [hd]), ht⟩, fun d hd ↦ ?_⟩
    exact (hhead d hd).resolve_left (by simp [hc])
  · rintro ⟨rfl, ⟨hall, ht⟩, hhead⟩
    refine ⟨fun d hd hws ↦ ?_, hw.singleSpaced.2, ⟨fun d hd ↦ .inr (hhead d hd), ht⟩,
      fun d hd _ _ ↦ .inl (hlast d hd)⟩
    rcases List.mem_append.mp hd with hd | hd
    · rw [hw.2 d hd] at hws
      cases hws
    · rcases List.mem_cons.mp hd with rfl | hd
      · rfl
      · exact hall d hd hws

/-- Joined fields do not begin with whitespace. -/
theorem head_intercalate {ws : List Str} (hws : ∀ w ∈ ws, IsField w) :
    ∀ c ∈ ([' '].intercalate ws).head?, isWhitespace c = false := by
  intro c hc
  cases ws with
  | nil => simp at hc
  | cons w ws =>
      have hw := hws w (by simp)
      have hmem : c ∈ w := by
        obtain ⟨d, w', rfl⟩ := List.exists_cons_of_ne_nil hw.1
        cases ws with
        | nil => simpa using List.mem_of_mem_head? hc
        | cons v vs =>
            rw [List.intercalate_cons_cons] at hc
            obtain rfl : d = c := by simpa using hc
            simp
      exact hw.2 c hmem

/-- **The words joined by single spaces are the text** exactly when it is single-spaced,
for a text that neither begins nor ends with whitespace. -/
theorem intercalate_splitWhitespace_iff {s : Str} (hs : Trimmed s) :
    [' '].intercalate (splitWhitespace s) = s ↔ SingleSpaced s := by
  induction hlen : s.length using Nat.strong_induction_on generalizing s with
  | _ n ih =>
      by_cases hne : s = []
      · subst hne
        simp [SingleSpaced]
      · obtain ⟨w, hw, rfl | ⟨c, t, rfl, hc⟩⟩ := exists_field hne hs.1
        · simp [splitWhitespace_of_isField hw, hw.singleSpaced]
        · -- the text does not end with the whitespace behind its first word
          have hlast : ∀ d ∈ (c :: t).getLast?, isWhitespace d = false := fun d hd ↦ by
            refine hs.2 d ?_
            rwa [List.getLast?_append_of_ne_nil _ (by simp)]
          obtain ⟨e, t', rfl⟩ : ∃ e t', t = e :: t' := by
            cases t with
            | nil => simp [hc] at hlast
            | cons e t' => exact ⟨e, t', rfl⟩
          rw [List.getLast?_cons_cons] at hlast
          obtain ⟨v, vs, hwords⟩ : ∃ v vs, splitWhitespace (e :: t') = v :: vs := by
            refine List.exists_cons_of_ne_nil fun hnil ↦ ?_
            obtain ⟨d, hd⟩ := Option.isSome_iff_exists.mp
              (List.getLast?_isSome.mpr (List.cons_ne_nil e t'))
            have hblank := splitWhitespace_eq_nil_iff.mp hnil d (List.mem_of_getLast? hd)
            rw [hlast d hd] at hblank
            cases hblank
          have hjoin : [' '].intercalate (splitWhitespace (w ++ c :: e :: t')) =
              w ++ ' ' :: [' '].intercalate (splitWhitespace (e :: t')) := by
            rw [splitWhitespace_field_cons hw hc, hwords, List.intercalate_cons_cons]
            simp
          rw [hjoin, singleSpaced_field_cons hw hc, List.append_cancel_left_eq,
            List.cons_eq_cons, eq_comm (a := ' ')]
          refine and_congr_right fun _ ↦ ?_
          have hhead : ∀ d ∈ ([' '].intercalate (splitWhitespace (e :: t'))).head?,
              isWhitespace d = false := head_intercalate fun _ ↦ isField_of_mem_splitWhitespace
          by_cases he : isWhitespace e = true
          · constructor
            · intro h
              have := hhead e (by rw [h]; rfl)
              simp [he] at this
            · intro h
              have := h.2 e rfl
              simp [he] at this
          · have htrim : Trimmed (e :: t') := ⟨by simpa using he, hlast⟩
            have hlt : (e :: t').length < n := by
              rw [← hlen, List.length_append, List.length_cons (a := c)]
              omega
            rw [ih _ hlt htrim rfl]
            exact ⟨fun h ↦ ⟨h, by simpa using he⟩, fun h ↦ h.1⟩

/-! ## Lines -/

/-- A file of lines, each ended by a line feed. -/
def unlines (ls : List Str) : Str := ls.flatMap (· ++ ['\n'])

/-- What stands in front of the separators, each piece ended by one. -/
theorem splitOn_flatMap_concat {α : Type*} [DecidableEq α] {sep : α} {pieces : List (List α)}
    (h : ∀ piece ∈ pieces, sep ∉ piece) :
    (pieces.flatMap (· ++ [sep])).splitOn sep = pieces ++ [[]] := by
  induction pieces with
  | nil => rfl
  | cons piece pieces ih =>
      rw [List.flatMap_cons, List.append_assoc, List.singleton_append,
        List.splitOn_append_cons_self_of_not_mem (h piece (by simp)),
        ih fun piece' hpiece' ↦ h piece' (by simp [hpiece']), List.cons_append]

/-- The pieces of a file between its line feeds. -/
theorem splitOn_unlines {ls : List Str} (h : ∀ l ∈ ls, '\n' ∉ l) :
    (unlines ls).splitOn '\n' = ls ++ [[]] :=
  splitOn_flatMap_concat h

/-- `lines` gives the lines of a file back, without their carriage returns. -/
theorem lines_unlines {ls : List Str} (h : ∀ l ∈ ls, '\n' ∉ l) :
    lines (unlines ls) = ls.map stripCarriageReturn := by
  rw [lines, splitOn_unlines h]
  simp

theorem stripCarriageReturn_append (s : Str) {t : Str} (ht : t ≠ []) :
    stripCarriageReturn (s ++ t) = s ++ stripCarriageReturn t := by
  rw [stripCarriageReturn, stripCarriageReturn, List.getLast?_append_of_ne_nil _ ht,
    List.dropLast_append_of_ne_nil ht]
  split_ifs <;> rfl

/-- A carriage return at the end of a line is no part of a word. -/
theorem splitWhitespace_stripCarriageReturn (line : Str) :
    splitWhitespace (stripCarriageReturn line) = splitWhitespace line := by
  rw [stripCarriageReturn]
  split_ifs with h
  · have hsplit := List.dropLast_append_getLast? _ h
    conv_rhs => rw [← hsplit]
    exact (splitWhitespace_concat rfl _).symm
  · rfl

end Pwatch.Text
