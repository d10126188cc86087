import Pwatch.Maps.Parse
import Pwatch.Text.Words

/-!
# Reading back the region table

The kernel prints one line for each mapping of a process.  `read_maps` gets every one
of them back, whatever its numbers and its padding are and whatever lines that are no
mapping stand between them (`readMaps_table`).  Of a pathname it keeps the words: the
name is returned as it was printed exactly when its only whitespace is single spaces
(`pathname_verbatim_iff`).
-/

namespace Pwatch.Maps

open Text

/-! ## What the kernel prints -/

/-- A mapping as the kernel has it. -/
structure MapsRecord where
  start : UInt64
  stop : UInt64
  perms : Str
  offset : UInt64
  dev : Str
  inode : UInt64
  pathname : Option Str
  perms_isField : IsField perms
  dev_isField : IsField dev
  pathname_oneLine : ∀ path ∈ pathname, '\n' ∉ path

/-- The line is a print of the record: its numbers in any number of digits, any number
of padding spaces behind the first blank after the inode, and the pathname if any. -/
inductive PrintedAs (r : MapsRecord) : Str → Prop
  | line {start stop offset inode padding : Str} :
      NumeralOf 16 start r.start → NumeralOf 16 stop r.stop → NumeralOf 16 offset r.offset →
      NumeralOf 10 inode r.inode → (∀ c ∈ padding, c = ' ') →
        PrintedAs r (start ++ '-' :: stop ++ ' ' :: r.perms ++ ' ' :: offset ++ ' ' :: r.dev ++
          ' ' :: inode ++ ' ' :: (padding ++ r.pathname.getD []))

/-- The line of a record, with bounds and offset in at least eight hex digits. -/
def mapsLine (padding : Nat) (r : MapsRecord) : Str :=
  let hex8 := fun (n : UInt64) ↦ (lowerHex n.toNat).leftpad 8 '0'
  hex8 r.start ++ '-' :: hex8 r.stop ++ ' ' :: r.perms ++ ' ' :: hex8 r.offset ++ ' ' :: r.dev ++
    ' ' :: Nat.toDigits 10 r.inode.toNat ++
      ' ' :: (List.replicate padding ' ' ++ r.pathname.getD [])

/-- Every record has a line. -/
theorem printedAs_mapsLine (padding : Nat) (r : MapsRecord) :
    PrintedAs r (mapsLine padding r) :=
  .line ((numeralOf_lowerHex _).leftpad 8) ((numeralOf_lowerHex _).leftpad 8)
    ((numeralOf_lowerHex _).leftpad 8)
    (numeralOf_toDigits (by omega) (by omega) _)
    fun _ hc ↦ List.eq_of_mem_replicate hc

/-! ## One line -/

/-- The two bounds are one field. -/
theorem isField_range {start stop : Str} (hstart : IsField start) (hstop : IsField stop) :
    IsField (start ++ '-' :: stop) := by
  refine ⟨by simp, fun c hc ↦ ?_⟩
  rcases List.mem_append.mp hc with hc | hc
  · exact hstart.2 c hc
  · rcases List.mem_cons.mp hc with rfl | hc
    · rfl
    · exact hstop.2 c hc

/-- The pathname a line is read with: its words, joined by single spaces. -/
def readPathname (path : Str) : Option Str :=
  if splitWhitespace path = [] then none else some ([' '].intercalate (splitWhitespace path))

/-- The region a line of the record is read as. -/
def MapsRecord.region (r : MapsRecord) : ParsedRegion where
  start := r.start
  stop := r.stop
  region := {
    start := "0x".toList ++ lowerHex16 r.start.toNat
    stop := "0x".toList ++ lowerHex16 r.stop.toNat
    perms := r.perms
    offset := "0x".toList ++ lowerHex r.offset.toNat
    dev := r.dev
    inode := r.inode
    pathname := readPathname (r.pathname.getD []) }

/-- The words of a printed line are its fields, and then those of the pathname. -/
theorem PrintedAs.splitWhitespace_eq {r : MapsRecord} {line : Str} (h : PrintedAs r line) :
    ∃ start stop offset inode, NumeralOf 16 start r.start ∧ NumeralOf 16 stop r.stop ∧
      NumeralOf 16 offset r.offset ∧ NumeralOf 10 inode r.inode ∧
        splitWhitespace line = (start ++ '-' :: stop) :: r.perms :: offset :: r.dev :: inode ::
          splitWhitespace (r.pathname.getD []) := by
  cases h with
  | @line start stop offset inode padding hstart hstop hoffset hinode hpadding =>
      refine ⟨start, stop, offset, inode, hstart, hstop, hoffset, hinode, ?_⟩
      have hspace : isWhitespace ' ' = true := rfl
      have hblank : Blank padding := fun c hc ↦ by
        rw [hpadding c hc]
        rfl
      simp only [List.append_assoc, List.cons_append]
      rw [← List.cons_append, ← List.append_assoc,
        splitWhitespace_field_cons (isField_range hstart.isField hstop.isField) hspace,
        splitWhitespace_field_cons r.perms_isField hspace,
        splitWhitespace_field_cons hoffset.isField hspace,
        splitWhitespace_field_cons r.dev_isField hspace,
        splitWhitespace_field_cons hinode.isField hspace,
        splitWhitespace_blank_append hblank]

/-- **A printed line is read as its record.** -/
theorem PrintedAs.parseMapsLine_eq {r : MapsRecord} {line : Str} (h : PrintedAs r line) :
    parseMapsLine line = some r.region := by
  obtain ⟨start, stop, offset, inode, hstart, hstop, hoffset, hinode, hwords⟩ :=
    h.splitWhitespace_eq
  have hdash : '-' ∉ start := hstart.isNumeral.not_mem (toDigit_minus 16)
  rw [parseMapsLine, hwords]
  simp only [hinode.fromStrRadix_eq (by omega), splitOnce_append hdash,
    hstart.fromStrRadix_eq (by omega), hstop.fromStrRadix_eq (by omega),
    hoffset.fromStrRadix_eq (by omega), Except.toOption, Option.bind_eq_bind, Option.bind_some,
    Option.pure_def]
  rfl

/-- A printed line is one line. -/
theorem PrintedAs.oneLine {r : MapsRecord} {line : Str} (h : PrintedAs r line) :
    '\n' ∉ line := by
  have hfield : ∀ {s : Str}, IsField s → '\n' ∉ s := by
    intro s hs hmem
    cases hs.2 '\n' hmem
  cases h with
  | line hstart hstop hoffset hinode hpadding =>
      have hpadding' : '\n' ∉ _ := fun hmem ↦ absurd (hpadding '\n' hmem) (by decide)
      have hpath : '\n' ∉ r.pathname.getD [] := by
        cases hp : r.pathname with
        | none => simp
        | some path => exact r.pathname_oneLine path hp
      simp only [List.mem_append, List.mem_cons, not_or]
      simp [hfield hstart.isField, hfield hstop.isField, hfield hoffset.isField,
        hfield hinode.isField, hfield r.perms_isField, hfield r.dev_isField, hpadding', hpath]

/-! ## The table -/

/-- A carriage return at the end of a line changes nothing. -/
theorem parseMapsLine_stripCarriageReturn (line : Str) :
    parseMapsLine (stripCarriageReturn line) = parseMapsLine line := by
  rw [parseMapsLine, splitWhitespace_stripCarriageReturn, ← parseMapsLine]

/-- A file is read line by line. -/
theorem readMaps_unlines {ls : List Str} (h : ∀ l ∈ ls, '\n' ∉ l) :
    readMaps (unlines ls) = ls.filterMap parseMapsLine := by
  rw [readMaps, lines_unlines h, List.filterMap_map]
  exact List.filterMap_congr fun l _ ↦ parseMapsLine_stripCarriageReturn l

/-- `ls'` is `ls` with lines inserted anywhere that are no mapping. -/
inductive Inserted : List Str → List Str → Prop
  | nil : Inserted [] []
  | keep {l : Str} {ls ls' : List Str} : Inserted ls ls' → Inserted (l :: ls) (l :: ls')
  | /-- One more line that `parse_maps_line` rejects. -/
    insert {l : Str} {ls ls' : List Str} :
      parseMapsLine l = none → '\n' ∉ l → Inserted ls ls' → Inserted ls (l :: ls')

theorem Inserted.filterMap_eq {ls ls' : List Str} (h : Inserted ls ls') :
    ls'.filterMap parseMapsLine = ls.filterMap parseMapsLine := by
  induction h with
  | nil => rfl
  | keep _ ih => rw [List.filterMap_cons, List.filterMap_cons, ih]
  | insert hl _ _ ih => rw [List.filterMap_cons_none hl, ih]

theorem Inserted.oneLine {ls ls' : List Str} (h : Inserted ls ls') (hls : ∀ l ∈ ls, '\n' ∉ l) :
    ∀ l ∈ ls', '\n' ∉ l := by
  induction h with
  | nil => exact hls
  | keep _ ih =>
      obtain ⟨hl, hls⟩ := List.forall_mem_cons.mp hls
      exact List.forall_mem_cons.mpr ⟨hl, ih hls⟩
  | insert _ hl _ ih => exact List.forall_mem_cons.mpr ⟨hl, ih hls⟩

/-- What a region says about the record it was read from. -/
structure ReadsBack (r : MapsRecord) (region : ParsedRegion) : Prop where
  start_eq : region.start = r.start
  stop_eq : region.stop = r.stop
  start_text : HexOf region.region.start r.start.toNat
  stop_text : HexOf region.region.stop r.stop.toNat
  perms_eq : region.region.perms = r.perms
  offset_text : HexOf region.region.offset r.offset.toNat
  dev_eq : region.region.dev = r.dev
  inode_eq : region.region.inode = r.inode
  pathname_isSome : region.region.pathname.isSome = true ↔
    ∃ path ∈ r.pathname, ∃ c ∈ path, isWhitespace c = false

/-- A pathname is read exactly when it has a character that is not whitespace. -/
theorem isSome_readPathname (path : Str) :
    (readPathname path).isSome = true ↔ ∃ c ∈ path, isWhitespace c = false := by
  have hblank : ¬ Blank path ↔ ∃ c ∈ path, isWhitespace c = false := by simp [Blank]
  rw [← hblank, ← splitWhitespace_eq_nil_iff, readPathname]
  split_ifs with h <;> simp [h]

theorem MapsRecord.readsBack (r : MapsRecord) : ReadsBack r r.region where
  start_eq := rfl
  stop_eq := rfl
  start_text := hexOf_lowerHex16 _
  stop_text := hexOf_lowerHex16 _
  perms_eq := rfl
  offset_text := hexOf_lowerHex _
  dev_eq := rfl
  inode_eq := rfl
  pathname_isSome := by
    refine (isSome_readPathname _).trans ?_
    cases r.pathname <;> simp

/-- The lines of records are one line each. -/
theorem oneLine_of_printed {records : List MapsRecord} {ls : List Str}
    (h : List.Forall₂ PrintedAs records ls) : ∀ l ∈ ls, '\n' ∉ l := by
  induction h with
  | nil => simp
  | cons hr _ ih => exact List.forall_mem_cons.mpr ⟨hr.oneLine, ih⟩

/-- Line by line the records are read back. -/
theorem filterMap_printed {records : List MapsRecord} {ls : List Str}
    (h : List.Forall₂ PrintedAs records ls) :
    List.Forall₂ ReadsBack records (ls.filterMap parseMapsLine) := by
  induction h with
  | nil => exact .nil
  | @cons r l records ls hr _ ih =>
      rw [List.filterMap_cons_some hr.parseMapsLine_eq]
      exact .cons r.readsBack ih

/-- **The whole region table is read back**: one region for each record, in order, and
lines that are no mapping change nothing. -/
theorem readMaps_table {records : List MapsRecord} {ls : List Str}
    (h : List.Forall₂ PrintedAs records ls) :
    List.Forall₂ ReadsBack records (readMaps (unlines ls)) ∧
      ∀ ls', Inserted ls ls' → readMaps (unlines ls') = readMaps (unlines ls) := by
  have honeLine := oneLine_of_printed h
  refine ⟨?_, fun ls' hls' ↦ ?_⟩
  · rw [readMaps_unlines honeLine]
    exact filterMap_printed h
  · rw [readMaps_unlines (hls'.oneLine honeLine), readMaps_unlines honeLine, hls'.filterMap_eq]

/-- A named and an anonymous mapping. -/
theorem readMaps_table_two :
    ∃ r₁ r₂ : MapsRecord, r₁.pathname = some "/bin/a b".toList ∧ r₂.pathname = none ∧
      List.Forall₂ ReadsBack [r₁, r₂] (readMaps (unlines [mapsLine 3 r₁, mapsLine 0 r₂])) := by
  let r₁ : MapsRecord := {
    start := 0x400000, stop := 0x401000, perms := "r-xp".toList, offset := 0x1000
    dev := "08:01".toList, inode := 42, pathname := some "/bin/a b".toList
    perms_isField := by decide
    dev_isField := by decide
    pathname_oneLine := by simp }
  let r₂ : MapsRecord := {
    start := 0xfffffffffffff000, stop := 0xffffffffffffffff, perms := "rw-p".toList, offset := 0
    dev := "00:00".toList, inode := 0, pathname := none
    perms_isField := by decide
    dev_isField := by decide
    pathname_oneLine := by simp }
  exact ⟨r₁, r₂, rfl, rfl,
    (readMaps_table (.cons (printedAs_mapsLine 3 r₁) (.cons (printedAs_mapsLine 0 r₂) .nil))).1⟩

/-! ## Pathnames -/

/-- **When a pathname survives**: it is returned as it was printed exactly when it is
not empty and has no whitespace but single spaces. -/
theorem pathname_verbatim_iff {r : MapsRecord} {line path : Str} (h : PrintedAs r line)
    (hpath : r.pathname = some path) (htrim : Trimmed path) :
    (∃ region, parseMapsLine line = some region ∧ region.region.pathname = some path) ↔
      path ≠ [] ∧ SingleSpaced path := by
  have hread : r.region.region.pathname = readPathname path := by
    rw [MapsRecord.region, hpath]
    rfl
  rw [h.parseMapsLine_eq]
  simp only [Option.some.injEq, exists_eq_left', hread, readPathname]
  rw [← intercalate_splitWhitespace_iff htrim]
  by_cases hwords : splitWhitespace path = []
  · -- a blank text is trimmed only if it is empty
    simp only [hwords, if_true]
    constructor
    · simp
    · rintro ⟨hne, hnil⟩
      exact absurd hnil.symm hne
  · have hne : path ≠ [] := by
      rintro rfl
      exact hwords rfl
    simp [hwords, hne]

/-- A file name with two spaces in it. -/
def spacedRecord : MapsRecord where
  start := 0x400000
  stop := 0x401000
  perms := "r-xp".toList
  offset := 0
  dev := "08:01".toList
  inode := 42
  pathname := some "/tmp/a  b".toList
  perms_isField := by decide
  dev_isField := by decide
  pathname_oneLine := by simp

/-- The condition holds of a name with single spaces only. -/
theorem pathname_verbatim_iff_single :
    let r := { spacedRecord with
      pathname := some "/tmp/a b".toList, pathname_oneLine := by simp }
    ∃ region, parseMapsLine (mapsLine 2 r) = some region ∧
      region.region.pathname = some "/tmp/a b".toList := by
  intro r
  refine (pathname_verbatim_iff (printedAs_mapsLine 2 r) rfl (by decide)).mpr ?_
  exact ⟨by decide, by decide⟩

/-- Two spaces in a name are read as one. -/
theorem not_pathname_verbatim :
    ¬ ∀ (r : MapsRecord) (line path : Str), PrintedAs r line → r.pathname = some path →
      path ≠ [] → Trimmed path →
        ∃ region, parseMapsLine line = some region ∧ region.region.pathname = some path := by
  intro h
  obtain ⟨region, hparse, hpath⟩ := h spacedRecord (mapsLine 2 spacedRecord)
    "/tmp/a  b".toList (printedAs_mapsLine 2 spacedRecord) rfl (by decide) (by decide)
  have hread : (parseMapsLine (mapsLine 2 spacedRecord)).map (·.region.pathname) =
      some (some "/tmp/a b".toList) := by decide +kernel
  rw [hparse, Option.map_some, hpath] at hread
  exact absurd hread (by decide)

end Pwatch.Maps
