import Pwatch.Perf.Record

/-!
# The event loop

`PerfMap::events` of `src/perf.rs`.  The loop consumes one record after the other, at most
128 of them each time the descriptor is readable, and clears the readiness only when it has
caught up with the kernel.  On records that the kernel has laid out modulo the ring it calls
its handler with exactly the samples they encode, and it stops with everything consumed
(`events_exact`).
-/

namespace Pwatch.Perf

/-! ## The code -/

/-- `MAX_EVENTS_PER_READINESS`. -/
def maxEventsPerReadiness : Nat := 128

/-- The mapping of a `PerfMap`, and where `events` stands in it. -/
structure PerfMap (dataSize : Nat) where
  data : Ring UInt8 dataSize
  dataHead : UInt64
  dataTail : UInt64
  sampleType : UInt64
  /-- `read_data_size`. -/
  readDataSize : UInt64
  /-- The readiness of the descriptor. -/
  ready : Bool
  /-- What the handler was called with, in order. -/
  handled : List SampleData

namespace PerfMap

variable {n : Nat} (arch : Arch) (endian : Endian)

/-- The reader at the next record, with this offset in it. -/
def reader (s : PerfMap n) (offset : UInt64) : RingReader n :=
  { data := s.data, baseOffset := s.readDataSize, offset }

/-- The header of the next record. -/
def nextHeader (s : PerfMap n) : PerfEventHeader := (readHeader endian (s.reader 0)).1

/-- What the next record hands to the handler.  The number of lost events and the type of
an unknown record are only logged. -/
def nextSample (s : PerfMap n) : Option SampleData :=
  if (s.nextHeader endian).type = perfRecordSample then
    (readSample arch endian s.sampleType (s.reader 8)).1
  else none

/-- One turn of the inner loop. -/
def consume (s : PerfMap n) : PerfMap n :=
  let readDataSize := s.readDataSize + (s.nextHeader endian).size.toUInt64
  { s with
    readDataSize
    dataTail := readDataSize
    handled := s.handled ++ (s.nextSample arch endian).toList }

/-- The inner loop, with so many turns left in `MAX_EVENTS_PER_READINESS`. -/
def drain : Nat → PerfMap n → PerfMap n
  | 0, s => s
  | turns + 1, s =>
      if s.dataHead ≠ s.readDataSize then drain turns (s.consume arch endian) else s

/-- One turn of the outer loop, once the descriptor is readable. -/
def onReadable (s : PerfMap n) : PerfMap n :=
  let s := s.drain arch endian maxEventsPerReadiness
  if s.dataHead = s.readDataSize then { s with ready := false } else s

/-- So many turns of the outer loop.  While the descriptor is not readable it waits. -/
def rounds : Nat → PerfMap n → PerfMap n
  | 0, s => s
  | k + 1, s => if s.ready then rounds k (s.onReadable arch endian) else s

/-! ## One record -/

/-- The bytes of a sequence of records. -/
def encodeAll (backtrace : Bool) (records : List PerfRecord) : List UInt8 :=
  records.flatMap (PerfRecord.encode endian backtrace)

/-- The records that are still to be consumed. -/
structure Remaining (backtrace : Bool) (s : PerfMap n) (records : List PerfRecord) : Prop where
  sampleType_eq : s.sampleType = sampleTypeOf backtrace
  holds : s.data.Holds s.readDataSize.toNat (encodeAll endian backtrace records)
  head_eq : s.dataHead.toNat = s.readDataSize.toNat + (encodeAll endian backtrace records).length
  tail_eq : s.dataTail = s.readDataSize
  wellFormed : ∀ r ∈ records, r.WellFormed arch endian backtrace

variable {arch endian} {backtrace : Bool} {s : PerfMap n} {r : PerfRecord}
  {records : List PerfRecord}

theorem encodeAll_cons (r : PerfRecord) (records : List PerfRecord) :
    encodeAll endian backtrace (r :: records) =
      r.encode endian backtrace ++ encodeAll endian backtrace records := by
  rw [encodeAll, List.flatMap_cons, ← encodeAll]

/-- The inner loop leaves the readiness and the head alone. -/
theorem drain_frame (turns : Nat) (s : PerfMap n) :
    (s.drain arch endian turns).ready = s.ready ∧
      (s.drain arch endian turns).dataHead = s.dataHead := by
  induction turns generalizing s with
  | zero => exact ⟨rfl, rfl⟩
  | succ turns ih =>
      rw [drain]
      split_ifs
      · exact ih (s.consume arch endian)
      · exact ⟨rfl, rfl⟩

theorem rounds_dataHead (k : Nat) (s : PerfMap n) :
    (s.rounds arch endian k).dataHead = s.dataHead := by
  induction k generalizing s with
  | zero => rfl
  | succ k ih =>
      rw [rounds]
      split_ifs
      · rw [ih, onReadable]
        split_ifs <;> exact (drain_frame maxEventsPerReadiness s).2
      · rfl

namespace Remaining

/-- There is nothing left to consume exactly when the loop has caught up. -/
theorem head_eq_iff (h : Remaining arch endian backtrace s records) :
    s.dataHead = s.readDataSize ↔ records = [] := by
  rw [← UInt64.toNat_inj, h.head_eq]
  cases records with
  | nil => simp [encodeAll]
  | cons r records =>
      have hpos := r.length_pos endian backtrace
      rw [encodeAll_cons, List.length_append, PerfRecord.length_encode]
      simp only [reduceCtorEq, iff_false]
      omega

section

variable (h : Remaining arch endian backtrace s (r :: records))

include h

/-- Where the parts of the next record stand. -/
theorem holds_parts :
    s.data.Holds s.readDataSize.toNat ((r.header endian backtrace).bytes endian) ∧
      s.data.Holds (s.readDataSize.toNat + 8) (r.body endian backtrace) ∧
      s.data.Holds (s.readDataSize.toNat + r.length endian backtrace)
        (encodeAll endian backtrace records) := by
  have hholds := h.holds
  rw [encodeAll_cons, Ring.holds_append, PerfRecord.length_encode, PerfRecord.encode,
    Ring.holds_append, PerfEventHeader.length_bytes] at hholds
  exact ⟨hholds.1.1, hholds.1.2, hholds.2⟩

/-- No position of the next record passes `2 ^ 64`. -/
theorem readDataSize_add_lt :
    s.readDataSize.toNat + r.length endian backtrace < 2 ^ 64 := by
  have hhead := h.head_eq
  have hlt := s.dataHead.toNat_lt
  rw [encodeAll_cons, List.length_append, PerfRecord.length_encode] at hhead
  omega

theorem nextHeader_eq : s.nextHeader endian = r.header endian backtrace := by
  have hlt := h.readDataSize_add_lt
  have hlen : r.length endian backtrace = 8 + (r.body endian backtrace).length := rfl
  have hdecodes := decodes_readHeader (n := n) endian (r.header endian backtrace) (s.reader 0)
    (by rw [PerfEventHeader.length_bytes]; exact Nat.lt_of_le_of_lt (by simp [reader]; omega) hlt)
    h.holds_parts.1
  rw [nextHeader, hdecodes]

theorem nextSample_eq : s.nextSample arch endian = r.delivered backtrace := by
  have hlt := h.readDataSize_add_lt
  have hwf := h.wellFormed r (by simp)
  rw [nextSample, h.nextHeader_eq]
  cases r with
  | sample misc pid tid callchain abi regs =>
      rw [PerfRecord.length, ← Nat.add_assoc] at hlt
      have hdecodes := decodes_readSample (n := n) arch endian hwf (s.reader 8) hlt
        h.holds_parts.2.1
      have htype : ((PerfRecord.sample misc pid tid callchain abi regs).header endian
          backtrace).type = perfRecordSample := rfl
      rw [if_pos htype, h.sampleType_eq, hdecodes]
  | lost => rfl
  | other type misc body =>
      exact if_neg (hwf.other type misc body rfl).1

/-- What one turn does to the counter. -/
theorem readDataSize_consume :
    (s.consume arch endian).readDataSize.toNat =
      s.readDataSize.toNat + r.length endian backtrace := by
  have hlt := h.readDataSize_add_lt
  have hsize := (h.wellFormed r (by simp)).size_eq
  change (s.readDataSize + (s.nextHeader endian).size.toUInt64).toNat = _
  rw [h.nextHeader_eq, UInt64.toNat_add, UInt16.toNat_toUInt64, hsize]
  exact Nat.mod_eq_of_lt hlt

/-- **The step lemma**: one turn consumes one record and delivers what it encodes. -/
theorem consume :
    Remaining arch endian backtrace (s.consume arch endian) records ∧
      (s.consume arch endian).handled = s.handled ++ (r.delivered backtrace).toList := by
  constructor
  · exact {
      sampleType_eq := h.sampleType_eq
      holds := by
        rw [h.readDataSize_consume]
        exact h.holds_parts.2.2
      head_eq := by
        have hhead := h.head_eq
        rw [encodeAll_cons, List.length_append, PerfRecord.length_encode] at hhead
        rw [h.readDataSize_consume, Nat.add_assoc]
        exact hhead
      tail_eq := rfl
      wellFormed := fun r' hr' ↦ h.wellFormed r' (by simp [hr']) }
  · change s.handled ++ (s.nextSample arch endian).toList = _
    rw [h.nextSample_eq]

end

/-! ## The loops -/

/-- **The inner loop** consumes as many records as it has turns. -/
theorem drain (h : Remaining arch endian backtrace s records) (turns : Nat) :
    Remaining arch endian backtrace (s.drain arch endian turns) (records.drop turns) ∧
      (s.drain arch endian turns).handled =
        s.handled ++ (records.take turns).filterMap (PerfRecord.delivered backtrace) := by
  induction turns generalizing s records with
  | zero => exact ⟨h, by simp [PerfMap.drain]⟩
  | succ turns ih =>
      rw [PerfMap.drain]
      cases records with
      | nil =>
          rw [if_neg (not_not.mpr (h.head_eq_iff.mpr rfl))]
          exact ⟨h, by simp⟩
      | cons r records =>
          rw [if_pos (fun heq ↦ absurd (h.head_eq_iff.mp heq) (by simp))]
          obtain ⟨hrest, hhandled⟩ := h.consume
          obtain ⟨hdrained, hall⟩ := ih hrest
          refine ⟨hdrained, ?_⟩
          rw [hall, hhandled, List.take_succ_cons, List.append_assoc]
          cases hd : r.delivered backtrace with
          | none => rw [List.filterMap_cons_none hd, Option.toList_none, List.nil_append]
          | some data => rw [List.filterMap_cons_some hd, Option.toList_some, List.singleton_append]

/-- **One readiness** consumes up to 128 records, and is cleared when none is left. -/
theorem onReadable (h : Remaining arch endian backtrace s records) :
    Remaining arch endian backtrace (s.onReadable arch endian)
        (records.drop maxEventsPerReadiness) ∧
      (s.onReadable arch endian).handled = s.handled ++
        (records.take maxEventsPerReadiness).filterMap (PerfRecord.delivered backtrace) ∧
      ((s.onReadable arch endian).ready = true ↔
        s.ready = true ∧ records.drop maxEventsPerReadiness ≠ []) := by
  obtain ⟨hrest, hhandled⟩ := h.drain maxEventsPerReadiness
  have hready : (s.drain arch endian maxEventsPerReadiness).ready = s.ready :=
    (drain_frame maxEventsPerReadiness s).1
  rw [PerfMap.onReadable]
  split_ifs with hcaught
  · -- what is cleared is no part of what remains
    refine ⟨⟨hrest.sampleType_eq, hrest.holds, hrest.head_eq, hrest.tail_eq, hrest.wellFormed⟩,
      hhandled, iff_of_false nofun fun hne ↦ ?_⟩
    exact hne.2 (hrest.head_eq_iff.mp hcaught)
  · refine ⟨hrest, hhandled, ?_⟩
    rw [hready]
    exact (and_iff_left fun hnil ↦ hcaught (hrest.head_eq_iff.mpr hnil)).symm

/-- **The outer loop** consumes 128 records a turn, and waits once it has caught up. -/
theorem rounds (h : Remaining arch endian backtrace s records)
    (hready : s.ready = true ∨ records = []) (k : Nat) :
    Remaining arch endian backtrace (s.rounds arch endian k)
        (records.drop (maxEventsPerReadiness * k)) ∧
      (s.rounds arch endian k).handled = s.handled ++
        (records.take (maxEventsPerReadiness * k)).filterMap (PerfRecord.delivered backtrace) ∧
      ((s.rounds arch endian k).ready = true ↔
        s.ready = true ∧ (k = 0 ∨ records.drop (maxEventsPerReadiness * k) ≠ [])) := by
  induction k generalizing s records with
  | zero => simpa [PerfMap.rounds] using h
  | succ k ih =>
      rw [PerfMap.rounds]
      split_ifs with hr
      · obtain ⟨hrest, hhandled, hround⟩ := h.onReadable
        have hready' : (s.onReadable arch endian).ready = true ∨
            records.drop maxEventsPerReadiness = [] := by
          by_cases hnil : records.drop maxEventsPerReadiness = []
          · exact .inr hnil
          · exact .inl (hround.mpr ⟨hr, hnil⟩)
        obtain ⟨hdropped, hall, hwaits⟩ := ih hrest hready'
        have hmul : maxEventsPerReadiness * (k + 1) =
            maxEventsPerReadiness + maxEventsPerReadiness * k := by
          rw [Nat.mul_succ, Nat.add_comm]
        rw [List.drop_drop] at hdropped hwaits
        rw [hmul, List.take_add, List.filterMap_append, ← List.append_assoc, ← hhandled]
        refine ⟨hdropped, hall, ?_⟩
        rw [hwaits, hround]
        simp only [hr, true_and, false_or]
        constructor
        · rintro ⟨hne, rfl | hne'⟩
          · exact hne
          · exact hne'
        · intro hne
          refine ⟨fun hnil ↦ hne ?_, .inr hne⟩
          rw [← List.drop_drop, hnil, List.drop_nil]
      · obtain rfl := hready.resolve_left hr
        refine ⟨by simpa using h, by simp, iff_of_false hr fun hboth ↦ hr hboth.1⟩

end Remaining

/-! ## The result -/

variable (arch endian) in
/-- The mapping after the kernel has written the records behind what is consumed. -/
def written (data : Ring UInt8 n) (consumed : Nat) (backtrace : Bool)
    (records : List PerfRecord) : PerfMap n where
  data := data.write consumed (encodeAll endian backtrace records)
  dataHead := UInt64.ofNat (consumed + (encodeAll endian backtrace records).length)
  dataTail := UInt64.ofNat consumed
  sampleType := sampleTypeOf backtrace
  readDataSize := UInt64.ofNat consumed
  ready := true
  handled := []

theorem remaining_written {data : Ring UInt8 n} {consumed : Nat}
    (hwf : ∀ r ∈ records, r.WellFormed arch endian backtrace)
    (hfit : (encodeAll endian backtrace records).length ≤ n)
    (hcount : consumed + (encodeAll endian backtrace records).length < 2 ^ 64) :
    Remaining arch endian backtrace (written endian data consumed backtrace records) records := by
  have hconsumed : (UInt64.ofNat consumed).toNat = consumed :=
    UInt64.toNat_ofNat_of_lt' (Nat.lt_of_le_of_lt (Nat.le_add_right _ _) hcount)
  have hhead : (UInt64.ofNat (consumed + (encodeAll endian backtrace records).length)).toNat =
      consumed + (encodeAll endian backtrace records).length :=
    UInt64.toNat_ofNat_of_lt' hcount
  exact {
    sampleType_eq := rfl
    holds := by
      simp only [written, hconsumed]
      exact Ring.holds_write data consumed hfit
    head_eq := by simp only [written, hconsumed, hhead]
    tail_eq := rfl
    wellFormed := hwf }

/-- **Ring decoding is exact across the wrap.**  For records laid out modulo the ring
behind any number of consumed bytes, after any number of readinesses

* the handler was called with the samples of the records consumed so far, in order, and
  128 records are consumed at each readiness while there are any;
* `data_tail` stands behind the last consumed record;
* the loop waits for the kernel exactly when nothing is left, and then all samples are
  delivered and `data_tail` has reached `data_head`. -/
theorem events_exact {data : Ring UInt8 n} {consumed : Nat}
    (hwf : ∀ r ∈ records, r.WellFormed arch endian backtrace)
    (hfit : (encodeAll endian backtrace records).length ≤ n)
    (hcount : consumed + (encodeAll endian backtrace records).length < 2 ^ 64) (k : Nat) :
    let s := (written endian data consumed backtrace records).rounds arch endian k
    s.handled =
        (records.take (maxEventsPerReadiness * k)).filterMap (PerfRecord.delivered backtrace) ∧
      s.dataTail.toNat = consumed +
        (encodeAll endian backtrace (records.take (maxEventsPerReadiness * k))).length ∧
      (s.ready = false ↔ 0 < k ∧ records.length ≤ maxEventsPerReadiness * k) ∧
      (records.length ≤ maxEventsPerReadiness * k →
        s.handled = records.filterMap (PerfRecord.delivered backtrace) ∧
          s.dataTail = s.dataHead ∧
          s.dataHead = (written endian data consumed backtrace records).dataHead) := by
  intro s
  have hstart : Remaining arch endian backtrace (written endian data consumed backtrace records)
      records := remaining_written hwf hfit hcount
  obtain ⟨hrest, hhandled, hready⟩ := hstart.rounds (.inl rfl) k
  have hhead : s.dataHead = (written endian data consumed backtrace records).dataHead :=
    rounds_dataHead k _
  have hheadNat : s.dataHead.toNat =
      consumed + (encodeAll endian backtrace records).length := by
    rw [hhead]
    exact UInt64.toNat_ofNat_of_lt' hcount
  have hlength : (encodeAll endian backtrace records).length =
      (encodeAll endian backtrace (records.take (maxEventsPerReadiness * k))).length +
        (encodeAll endian backtrace (records.drop (maxEventsPerReadiness * k))).length := by
    rw [← List.length_append, encodeAll, encodeAll, encodeAll, ← List.flatMap_append,
      List.take_append_drop]
  have htail : s.dataTail = s.readDataSize := hrest.tail_eq
  refine ⟨hhandled, ?_, ?_, fun hle ↦ ?_⟩
  · have hrestHead : s.dataHead.toNat = s.readDataSize.toNat +
        (encodeAll endian backtrace (records.drop (maxEventsPerReadiness * k))).length :=
      hrest.head_eq
    rw [htail]
    omega
  · rw [← Bool.not_eq_true, hready, ← List.drop_eq_nil_iff, Nat.pos_iff_ne_zero]
    simp [written, not_or]
  · rw [List.take_of_length_le hle] at hhandled
    have hcaught : s.dataHead = s.readDataSize :=
      hrest.head_eq_iff.mpr (List.drop_eq_nil_iff.mpr hle)
    exact ⟨hhandled, htail.trans hcaught.symm, hhead⟩

/-- A sample with a callchain between two records that are skipped, all around the end of
the ring. -/
theorem events_exact_wrap :
    let sample := PerfRecord.sample 2 7 8 [0x401000, 0x402000] 2 (List.replicate 20 9)
    let s := (written .little ⟨Vector.replicate 256 0, by decide⟩ 250 true
      [.lost 0 1 5 [], sample, .other 3 0 (List.replicate 8 0)]).rounds .x86_64 .little 1
    s.handled = [⟨7, 8, List.replicate 20 9, some [0x401000, 0x402000], []⟩] ∧
      s.dataTail = s.dataHead := by
  intro sample
  have hlost : (PerfRecord.lost 0 1 5 []).WellFormed .x86_64 .little true :=
    ⟨by decide, nofun, nofun⟩
  have hother : (PerfRecord.other 3 0 (List.replicate 8 0)).WellFormed .x86_64 .little true := by
    refine ⟨by decide, nofun, ?_⟩
    rintro _ _ _ ⟨⟩
    decide
  have hsample : sample.WellFormed .x86_64 .little true := by
    refine ⟨by decide +kernel, ?_, nofun⟩
    intro misc pid tid callchain abi regs heq
    obtain ⟨-, -, -, -, rfl, rfl⟩ := PerfRecord.sample.inj heq
    decide
  obtain ⟨-, -, -, hall⟩ := @events_exact 256 .x86_64 .little true _
    ⟨Vector.replicate 256 0, by decide⟩ 250
    (List.forall_mem_cons.mpr ⟨hlost, List.forall_mem_cons.mpr ⟨hsample,
      List.forall_mem_singleton.mpr hother⟩⟩) (by decide +kernel) (by decide +kernel) 1
  obtain ⟨hhandled, htail, -⟩ := hall (by decide)
  exact ⟨hhandled, htail⟩

end PerfMap

end Pwatch.Perf
