import Pwatch.Filter.Correctness
import Pwatch.Watch.Sample

/-!
# What a filter means for a driver hit

A filter text is a boolean formula over named registers in which `and` binds
tighter than `or`.  This file gives formulas their truth in the register snapshot of
a hit, without indices, register vectors or groups, and shows that the watcher hands
over exactly the hits in which the formula is true.
-/

namespace Pwatch.Watch

open Driver Pwatch.Filter Text Grammar

/-! ## Named registers -/

/-- The registers of a snapshot that a filter can name. -/
inductive Register
  | x (i : Fin 29)
  | fp
  | lr
  | sp
  | pc
deriving DecidableEq

namespace Register

def name : Register → Str
  | .x i => 'x' :: Nat.toDigits 10 i
  | .fp => "fp".toList
  | .lr => "lr".toList
  | .sp => "sp".toList
  | .pc => "pc".toList

/-- The value of a register in a snapshot. -/
def value (s : Snapshot) : Register → UInt64
  | .x i => s.regs[i]
  | .fp => s.regs[29]
  | .lr => s.regs[30]
  | .sp => s.sp
  | .pc => s.pc

end Register

/-! ## Formulas -/

/-- The comparison of two unsigned numbers. -/
def Compares (a b : Nat) : Operator → Prop
  | .eq => a = b
  | .ne => a ≠ b
  | .gt => b < a
  | .ge => b ≤ a
  | .lt => a < b
  | .le => a ≤ b

/-- Boolean formulas over registers. -/
inductive Formula
  | compare (reg : Register) (mask : Option UInt64) (op : Operator) (value : UInt64)
  | conj (f g : Formula)
  | disj (f g : Formula)

/-- Truth in a snapshot. -/
def Formula.Holds (s : Snapshot) : Formula → Prop
  | .compare reg none op value => Compares (reg.value s).toNat value.toNat op
  | .compare reg (some mask) op value => Compares (reg.value s &&& mask).toNat value.toNat op
  | .conj f g => f.Holds s ∧ g.Holds s
  | .disj f g => f.Holds s ∨ g.Holds s

/-- A comparison, with the mask it may have. -/
inductive ReadsAtom : List Str → Formula → Prop
  | plain {r o t : Str} {reg : Register} {op : Operator} {value : UInt64} :
      toAsciiLowercase r = reg.name → Comparison o op → Value t value →
        ReadsAtom [r, o, t] (.compare reg none op value)
  | masked {r m o t : Str} {reg : Register} {mask : UInt64} {op : Operator} {value : UInt64} :
      toAsciiLowercase r = reg.name → Value m mask → Comparison o op → Value t value →
        ReadsAtom [r, ['&'], m, o, t] (.compare reg (some mask) op value)

/-- Conjunctions of comparisons, grouped in any way. -/
inductive ReadsConj : List Str → Formula → Prop
  | atom {ts : List Str} {f : Formula} : ReadsAtom ts f → ReadsConj ts f
  | and {ts us : List Str} {s : Str} {f g : Formula} :
      ReadsConj ts f → IsAnd s → ReadsConj us g → ReadsConj (ts ++ s :: us) (.conj f g)

/-- Disjunctions of conjunctions: `and` binds tighter than `or`. -/
inductive Reads : List Str → Formula → Prop
  | conj {ts : List Str} {f : Formula} : ReadsConj ts f → Reads ts f
  | or {ts us : List Str} {s : Str} {f g : Formula} :
      Reads ts f → IsOr s → Reads us g → Reads (ts ++ s :: us) (.disj f g)

/-! ## The index conventions -/

/-- The place of a register in the name table and in the sample. -/
def Register.index : Register → Nat
  | .x i => i
  | .fp => 29
  | .lr => 30
  | .sp => 31
  | .pc => 32

namespace Register

theorem index_lt (r : Register) : r.index < Arch.aarch64.regsCount := by
  have hcount : Arch.aarch64.regsCount = 33 := by decide
  rw [hcount]
  cases r with
  | x i => exact i.isLt.trans (by decide)
  | fp | lr | sp | pc => decide

theorem exists_index {idx : Nat} (h : idx < Arch.aarch64.regsCount) :
    ∃ r : Register, r.index = idx := by
  have hcount : Arch.aarch64.regsCount = 33 := by decide
  rw [hcount] at h
  by_cases hx : idx < 29
  · exact ⟨.x ⟨idx, hx⟩, rfl⟩
  · obtain rfl | rfl | rfl | rfl : idx = 29 ∨ idx = 30 ∨ idx = 31 ∨ idx = 32 := by omega
    · exact ⟨.fp, rfl⟩
    · exact ⟨.lr, rfl⟩
    · exact ⟨.sp, rfl⟩
    · exact ⟨.pc, rfl⟩

/-- The name table has each register under its name. -/
theorem idToStr_index (r : Register) : Arch.aarch64.idToStr r.index = r.name := by
  cases r with
  | x i =>
      have h : ∀ i : Fin 29, Arch.aarch64.idToStr i = 'x' :: Nat.toDigits 10 i := by decide +kernel
      exact h i
  | fp | lr | sp | pc => rfl

theorem toAsciiLowercase_name (r : Register) : toAsciiLowercase r.name = r.name := by
  cases r with
  | x i =>
      have h : ∀ i : Fin 29,
          toAsciiLowercase ('x' :: Nat.toDigits 10 i) = 'x' :: Nat.toDigits 10 i := by
        decide +kernel
      exact h i
  | fp | lr | sp | pc => rfl

/-- The sample has each register at its index. -/
theorem getElem?_regs (r : Register) (hit : Driver.Hit) :
    (sampleOf hit).regs[r.index]? = some (r.value hit.after) := by
  have hlen : hit.after.regs.toList.length = 31 := Vector.length_toList
  have hregs : ∀ i (hi : i < 31), (sampleOf hit).regs[i]? = some hit.after.regs[i] := by
    intro i hi
    have hi' : i < hit.after.regs.toList.length := hi.trans_eq hlen.symm
    rw [sampleOf, List.append_assoc, List.getElem?_append_left hi', List.getElem?_eq_getElem hi',
      Vector.getElem_toList]
  cases r with
  | x i => exact hregs i (i.isLt.trans (by decide))
  | fp => exact hregs 29 (by decide)
  | lr => exact hregs 30 (by decide)
  | sp => simp [sampleOf, index, value, hlen]
  | pc => simp [sampleOf, index, value, hlen]

/-- The names `parse_reg` accepts are those of the registers, in any letter case. -/
theorem regName_iff {token : Str} {idx : Nat} :
    RegName .aarch64 token idx ↔
      ∃ r : Register, r.index = idx ∧ toAsciiLowercase token = r.name := by
  constructor
  · rintro ⟨hidx, hname⟩
    obtain ⟨r, rfl⟩ := exists_index hidx
    exact ⟨r, rfl, by rw [hname, idToStr_index, toAsciiLowercase_name]⟩
  · rintro ⟨r, rfl, hname⟩
    exact ⟨r.index_lt, by rw [hname, idToStr_index, toAsciiLowercase_name]⟩

end Register

/-! ## Predicates and formulas -/

theorem eval_iff (op : Operator) (a b : UInt64) :
    op.eval a b = true ↔ Compares a.toNat b.toNat op := by
  cases op
  · simp [Operator.eval, Compares, UInt64.toNat_inj]
  · simp [Operator.eval, Compares, UInt64.toNat_inj]
  · simp [Operator.eval, Compares, UInt64.lt_iff_toNat_lt]
  · simp [Operator.eval, Compares, UInt64.le_iff_toNat_le]
  · simp [Operator.eval, Compares, UInt64.lt_iff_toNat_lt]
  · simp [Operator.eval, Compares, UInt64.le_iff_toNat_le]

/-- The predicate is true of the sample of every hit in which the formula holds. -/
def Means (f : Formula) (test : SampleData → Bool) : Prop :=
  ∀ hit : Driver.Hit, test (sampleOf hit) = true ↔ f.Holds hit.after

theorem means_compare (r : Register) (mask : Option UInt64) (op : Operator) (value : UInt64) :
    Means (.compare r mask op value) (Predicate.matches ⟨r.index, mask, op, value⟩) := by
  intro hit
  rw [Predicate.matches, r.getElem?_regs hit]
  cases mask with
  | none => exact eval_iff op _ value
  | some mask => exact eval_iff op _ value

/-- A comparison that is read is a predicate that is parsed. -/
theorem ReadsAtom.derives {ts : List Str} {f : Formula} (h : ReadsAtom ts f) :
    ∃ predicate, PredicateDerives .aarch64 ts predicate ∧ Means f predicate.matches := by
  cases h with
  | plain hname hop hval =>
      exact ⟨_, .plain (Register.regName_iff.mpr ⟨_, rfl, hname⟩) hop hval, means_compare _ _ _ _⟩
  | masked hname hmask hop hval =>
      exact ⟨_, .masked (Register.regName_iff.mpr ⟨_, rfl, hname⟩) hmask hop hval,
        means_compare _ _ _ _⟩

theorem exists_readsAtom {ts : List Str} {predicate : Predicate}
    (h : PredicateDerives .aarch64 ts predicate) : ∃ f, ReadsAtom ts f := by
  cases h with
  | plain hreg hop hval =>
      obtain ⟨r, -, hname⟩ := Register.regName_iff.mp hreg
      exact ⟨_, .plain hname hop hval⟩
  | masked hreg hmask hop hval =>
      obtain ⟨r, -, hname⟩ := Register.regName_iff.mp hreg
      exact ⟨_, .masked hname hmask hop hval⟩

/-- However its `and`s are grouped, a conjunction is a group. -/
theorem ReadsConj.derives {ts : List Str} {f : Formula} (h : ReadsConj ts f) :
    ∃ group, GroupDerives .aarch64 ts group ∧
      Means f fun data ↦ group.all fun predicate ↦ predicate.matches data := by
  induction h with
  | atom ha =>
      obtain ⟨predicate, hp, hmeans⟩ := ha.derives
      exact ⟨[predicate], .one hp, fun hit ↦ by simpa using hmeans hit⟩
  | and _ hs _ ihf ihg =>
      obtain ⟨group, hgroup, hmeans⟩ := ihf
      obtain ⟨group', hgroup', hmeans'⟩ := ihg
      refine ⟨group ++ group', hgroup.append hs hgroup', fun hit ↦ ?_⟩
      beta_reduce
      rw [List.all_append, Bool.and_eq_true]
      exact and_congr (hmeans hit) (hmeans' hit)

/-- However its `or`s are grouped, a disjunction is a filter. -/
theorem Reads.derives {ts : List Str} {f : Formula} (h : Reads ts f) :
    ∃ groups, FilterDerives .aarch64 ts groups ∧ Means f (RegFilter.matches ⟨groups⟩) := by
  induction h with
  | conj hc =>
      obtain ⟨group, hgroup, hmeans⟩ := hc.derives
      exact ⟨[group], .one hgroup, fun hit ↦ by simpa [RegFilter.matches] using hmeans hit⟩
  | or _ hs _ ihf ihg =>
      obtain ⟨groups, hgroups, hmeans⟩ := ihf
      obtain ⟨groups', hgroups', hmeans'⟩ := ihg
      refine ⟨groups ++ groups', hgroups.append hs hgroups', fun hit ↦ ?_⟩
      rw [RegFilter.matches, List.any_append, Bool.or_eq_true]
      exact or_congr (hmeans hit) (hmeans' hit)

theorem exists_readsConj {ts : List Str} {group : List Predicate}
    (h : GroupDerives .aarch64 ts group) : ∃ f, ReadsConj ts f := by
  induction h with
  | one hp =>
      obtain ⟨f, hf⟩ := exists_readsAtom hp
      exact ⟨f, .atom hf⟩
  | more hp hs _ ih =>
      obtain ⟨f, hf⟩ := exists_readsAtom hp
      obtain ⟨g, hg⟩ := ih
      exact ⟨.conj f g, .and (.atom hf) hs hg⟩

/-- Every filter that is parsed can be read. -/
theorem exists_reads {ts : List Str} {groups : List (List Predicate)}
    (h : FilterDerives .aarch64 ts groups) : ∃ f, Reads ts f := by
  induction h with
  | one hgroup =>
      obtain ⟨f, hf⟩ := exists_readsConj hgroup
      exact ⟨f, .conj hf⟩
  | more hgroup hs _ ih =>
      obtain ⟨f, hf⟩ := exists_readsConj hgroup
      obtain ⟨g, hg⟩ := ih
      exact ⟨.disj f g, .or (.conj hf) hs hg⟩

/-- What `deliver` does with a hit in the middle of a poll. -/
theorem deliver_middle {filter : RegFilter} {f : Formula} (h : Means f filter.matches)
    (before after : List Driver.Hit) (hit : Driver.Hit) :
    (f.Holds hit.after → deliver (some filter) (before ++ hit :: after) =
      deliver (some filter) before ++ sampleOf hit :: deliver (some filter) after) ∧
    (¬ f.Holds hit.after → deliver (some filter) (before ++ hit :: after) =
      deliver (some filter) before ++ deliver (some filter) after) := by
  rw [deliver_append, deliver_cons]
  constructor
  · intro hf
    rw [if_pos ((h hit).mpr hf)]
  · intro hf
    rw [if_neg fun hmatch ↦ hf ((h hit).mp hmatch)]

/-- The hit made from a sample has one entry with the name of a register, and that
entry shows the value of the register. -/
theorem makeHitWithMaps_register (r : Register) (hit : Driver.Hit) (nextSeq : UInt64)
    (timestampMs : Nat) (breakpointId : UInt64)
    (regResolutions : List (Option Maps.AddressResolution))
    (backtraceResolutions : Option (List (Option Maps.AddressResolution))) :
    ∃ entry ∈ (Hit.makeHitWithMaps .aarch64 nextSeq timestampMs breakpointId (sampleOf hit)
        regResolutions backtraceResolutions).1.regs,
      entry.name = r.name ∧ entry.value = Hit.hexText (r.value hit.after) ∧
        ∀ other ∈ (Hit.makeHitWithMaps .aarch64 nextSeq timestampMs breakpointId (sampleOf hit)
          regResolutions backtraceResolutions).1.regs, other.name = r.name → other = entry := by
  have hlen : (sampleOf hit).regs.length = Arch.aarch64.regsCount := by
    simp [sampleOf]
    decide
  obtain ⟨hidx, hval⟩ := List.getElem?_eq_some_iff.mp (r.getElem?_regs hit)
  refine ⟨Hit.makeRegister .aarch64 regResolutions r.index (r.value hit.after), ?_,
    r.idToStr_index, rfl, ?_⟩
  · exact List.mem_mapIdx.mpr ⟨r.index, hidx, by rw [hval]⟩
  · intro other hother hname
    obtain ⟨j, hj, rfl⟩ := List.mem_mapIdx.mp hother
    have hname' : Arch.aarch64.idToStr j = Arch.aarch64.idToStr r.index :=
      Eq.trans hname r.idToStr_index.symm
    obtain rfl : j = r.index := Arch.aarch64.idToStr_injective (hlen ▸ hj) r.index_lt
      (by rw [hname', eqIgnoreAsciiCase_self])
    rw [hval]

/-- The predicates of a filter stand for register names of its text. -/
theorem exists_name {ts : List Str} {groups : List (List Predicate)}
    (h : FilterDerives .aarch64 ts groups) {group : List Predicate} (hgroup : group ∈ groups)
    {predicate : Predicate} (hp : predicate ∈ group) :
    ∃ r : Register, r.index = predicate.reg ∧ ∃ name ∈ ts, toAsciiLowercase name = r.name := by
  obtain ⟨us, hus, hgroup'⟩ := h.item_of_mem hgroup
  obtain ⟨vs, hvs, hpredicate⟩ := SepBy.item_of_mem hgroup' hp
  cases hpredicate with
  | plain hreg _ _ | masked hreg _ _ _ =>
      obtain ⟨r, hr, hname⟩ := Register.regName_iff.mp hreg
      exact ⟨r, hr, _, hus (hvs List.mem_cons_self), hname⟩

/-- **A filter means its formula.**  Let a text be parsed to `filter`.  The text can be
read as a formula, and in every such reading `on_hit` is called for a hit exactly when
the formula holds in the snapshot of the hit.  Each predicate of the filter compares
the register its text names: the sample has a value for it, which is the value of that
register in the snapshot and the value the finished hit shows under that name alone. -/
theorem filter_meaning {input : Str} {filter : RegFilter}
    (h : parse .aarch64 input = .ok filter) (hit : Driver.Hit) :
    ∃ tokens, Lexes input tokens ∧ (∃ f, Reads tokens f) ∧
      (∀ f, Reads tokens f → ∀ before after,
        (f.Holds hit.after → deliver (some filter) (before ++ hit :: after) =
          deliver (some filter) before ++ sampleOf hit :: deliver (some filter) after) ∧
        (¬ f.Holds hit.after → deliver (some filter) (before ++ hit :: after) =
          deliver (some filter) before ++ deliver (some filter) after)) ∧
      ∀ group ∈ filter.groups, ∀ predicate ∈ group, ∃ r : Register,
        (∃ name ∈ tokens, toAsciiLowercase name = r.name ∧
          parseReg .aarch64 name = .ok predicate.reg) ∧
        (sampleOf hit).regs[predicate.reg]? = some (r.value hit.after) ∧
        ∀ nextSeq timestampMs breakpointId regResolutions backtraceResolutions,
          ∃ entry ∈ (Hit.makeHitWithMaps .aarch64 nextSeq timestampMs breakpointId (sampleOf hit)
              regResolutions backtraceResolutions).1.regs,
            entry.name = r.name ∧ entry.value = Hit.hexText (r.value hit.after) ∧
              ∀ other ∈ (Hit.makeHitWithMaps .aarch64 nextSeq timestampMs breakpointId
                (sampleOf hit) regResolutions backtraceResolutions).1.regs,
                other.name = r.name → other = entry := by
  obtain ⟨tokens, hlex, hderives⟩ := parse_eq_ok_iff.mp h
  refine ⟨tokens, hlex, exists_reads hderives, ?_, ?_⟩
  · intro f hf
    obtain ⟨groups, hgroups, hmeans⟩ := hf.derives
    have hparse := parse_eq_ok_iff.mpr ⟨tokens, hlex, hgroups⟩
    obtain rfl : filter = ⟨groups⟩ := Except.ok.inj (h.symm.trans hparse)
    intro before after
    exact deliver_middle hmeans before after hit
  · intro group hgroup predicate hp
    obtain ⟨r, hr, name, hmem, hname⟩ := exists_name hderives hgroup hp
    refine ⟨r, ⟨name, hmem, hname, ?_⟩, ?_, ?_⟩
    · exact parseReg_eq_ok.mpr (Register.regName_iff.mpr ⟨r, hr, hname⟩)
    · rw [← hr]
      exact r.getElem?_regs hit
    · intro nextSeq timestampMs breakpointId regResolutions backtraceResolutions
      exact makeHitWithMaps_register r hit nextSeq timestampMs breakpointId regResolutions
        backtraceResolutions

/-- A poll that returns one hit with all registers equal to one, under the filter
`x0=1`. -/
theorem filter_meaning_x0 :
    ∃ hit : Driver.Hit, ∃ tokens f, Lexes "x0=1".toList tokens ∧ Reads tokens f ∧
      f.Holds hit.after ∧
      deliver (some ⟨[[⟨0, none, .eq, 1⟩]]⟩) [hit] = [sampleOf hit] := by
  let hit : Driver.Hit :=
    ⟨7, 8, ⟨Vector.replicate 31 1, 1, 1, Vector.replicate 32 (0, 0)⟩, 0, Vector.replicate 32 0⟩
  have hparse : parse .aarch64 "x0=1".toList = .ok ⟨[[⟨0, none, .eq, 1⟩]]⟩ := by decide +kernel
  have hdeliver : deliver (some ⟨[[⟨0, none, .eq, 1⟩]]⟩) [hit] = [sampleOf hit] := by
    decide +kernel
  obtain ⟨tokens, hlex, ⟨f, hf⟩, hmeaning, -⟩ := filter_meaning hparse hit
  refine ⟨hit, tokens, f, hlex, hf, ?_, hdeliver⟩
  by_contra hno
  have hnone := (hmeaning f hf [] []).2 hno
  rw [List.nil_append, hdeliver] at hnone
  cases hnone

end Pwatch.Watch
