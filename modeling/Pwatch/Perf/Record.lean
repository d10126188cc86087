import Pwatch.Hit
import Pwatch.Perf.Reader

/-!
# Perf records

`read_sample` of `src/perf.rs`, and the records the kernel writes for the sample types
`PerfMap::new` asks for.  The callchain is there or not, and every later field moves with
it; a sample without a register ABI has no registers and is dropped.
-/

namespace Pwatch.Perf

/-! ## The code -/

def perfSampleTid : UInt64 := 2

def perfSampleCallchain : UInt64 := 32

def perfSampleRegsUser : UInt64 := 4096

def perfRecordLost : UInt32 := 2

def perfRecordSample : UInt32 := 9

/-- The `sample_type` of `PerfMap::new`. -/
def sampleTypeOf (backtrace : Bool) : UInt64 :=
  if backtrace then perfSampleRegsUser ||| perfSampleTid ||| perfSampleCallchain
  else perfSampleRegsUser ||| perfSampleTid

section

variable {n : Nat} (arch : Arch) (endian : Endian)

/-- The field `TID` of a sample. -/
def readTid (sampleType : UInt64) : Reading n (UInt32 × UInt32) :=
  if sampleType &&& perfSampleTid ≠ 0 then do
    let pid ← readU32 endian
    let tid ← readU32 endian
    return (pid, tid)
  else return (0, 0)

/-- The field `CALLCHAIN` of a sample. -/
def readCallchain (sampleType : UInt64) : Reading n (Option (List UInt64)) :=
  if sampleType &&& perfSampleCallchain ≠ 0 then do
    let backtraceSize ← readU64 endian
    let backtrace ← readU64s endian backtraceSize.toNat
    return some backtrace
  else return none

/-- The field `REGS_USER` of a sample, or nothing when it has no ABI. -/
def readRegs (sampleType : UInt64) : Reading n (Option (List UInt64)) :=
  if sampleType &&& perfSampleRegsUser ≠ 0 then do
    let abi ← readU64 endian
    if abi = 0 then return none
    else do
      let regs ← readU64s endian arch.regsCount
      return some regs
  else return some []

/-- `read_sample`. -/
def readSample (sampleType : UInt64) : Reading n (Option SampleData) := do
  let (pid, tid) ← readTid endian sampleType
  let backtrace ← readCallchain endian sampleType
  let regs ← readRegs arch endian sampleType
  return regs.map fun regs ↦ { pid, tid, regs, backtrace, simd := [] }

end

/-! ## What the kernel writes -/

/-- A record of the kernel. -/
inductive PerfRecord
  | sample (misc : UInt16) (pid tid : UInt32) (callchain : List UInt64) (abi : UInt64)
      (regs : List UInt64)
  | /-- What follows the two numbers is the optional `sample_id`. -/
    lost (misc : UInt16) (id count : UInt64) (sampleId : List UInt8)
  | other (type : UInt32) (misc : UInt16) (body : List UInt8)
deriving Repr

namespace PerfRecord

variable (arch : Arch) (endian : Endian) (backtrace : Bool)

def type : PerfRecord → UInt32
  | .sample .. => perfRecordSample
  | .lost .. => perfRecordLost
  | .other type .. => type

def misc : PerfRecord → UInt16
  | .sample misc _ _ _ _ _ | .lost misc _ _ _ | .other _ misc _ => misc

/-- The callchain of a sample, when the sample type has one. -/
def callchainBytes (callchain : List UInt64) : List UInt8 :=
  if backtrace then endian.toBytes 8 callchain.length ++ u64Bytes endian callchain else []

/-- What stands behind the header. -/
def body : PerfRecord → List UInt8
  | .sample _ pid tid callchain abi regs =>
      (endian.toBytes 4 pid.toNat ++ endian.toBytes 4 tid.toNat) ++
        (callchainBytes endian backtrace callchain ++
          (endian.toBytes 8 abi.toNat ++ u64Bytes endian regs))
  | .lost _ id count sampleId =>
      endian.toBytes 8 id.toNat ++ (endian.toBytes 8 count.toNat ++ sampleId)
  | .other _ _ body => body

/-- The length the header gives: the header and what stands behind it. -/
def length (r : PerfRecord) : Nat := 8 + (r.body endian backtrace).length

/-- The header of the record. -/
def header (r : PerfRecord) : PerfEventHeader where
  type := r.type
  misc := r.misc
  size := UInt16.ofNat (r.length endian backtrace)

/-- The bytes of the record. -/
def encode (r : PerfRecord) : List UInt8 :=
  (r.header endian backtrace).bytes endian ++ r.body endian backtrace

/-- A record of a table of registers: as many registers as the mask has, or none without
an ABI.  Its length fits in the header. -/
structure WellFormed (r : PerfRecord) : Prop where
  length_lt : r.length endian backtrace < 2 ^ 16
  regs : ∀ misc pid tid callchain abi regs, r = .sample misc pid tid callchain abi regs →
    regs.length = if abi = 0 then 0 else arch.regsCount
  other : ∀ type misc body, r = .other type misc body →
    type ≠ perfRecordSample ∧ type ≠ perfRecordLost

/-- What the handler is to be called with for the record. -/
def delivered : PerfRecord → Option SampleData
  | .sample _ pid tid callchain abi regs =>
      if abi = 0 then none
      else some {
        pid, tid, regs, simd := []
        backtrace := if backtrace then some callchain else none }
  | .lost .. | .other .. => none

variable {arch endian backtrace}

@[simp] theorem length_encode (r : PerfRecord) :
    (r.encode endian backtrace).length = r.length endian backtrace := by
  rw [encode, List.length_append, PerfEventHeader.length_bytes, length]

variable (endian backtrace) in
theorem length_pos (r : PerfRecord) : 0 < r.length endian backtrace := by
  rw [length]
  omega

/-- The header of a well-formed record gives its length. -/
theorem WellFormed.size_eq {r : PerfRecord} (h : r.WellFormed arch endian backtrace) :
    (r.header endian backtrace).size.toNat = r.length endian backtrace :=
  UInt16.toNat_ofNat_of_lt' h.length_lt

end PerfRecord

/-! ## Samples are read as they were written -/

section

variable {n : Nat} (arch : Arch) (endian : Endian)

theorem decodes_readTid (backtrace : Bool) (pid tid : UInt32) :
    Decodes (readTid endian (sampleTypeOf backtrace) : Reading n (UInt32 × UInt32))
      (endian.toBytes 4 pid.toNat ++ endian.toBytes 4 tid.toNat) (pid, tid) := by
  have hbit : sampleTypeOf backtrace &&& perfSampleTid ≠ 0 := by cases backtrace <;> decide
  rw [readTid, if_pos hbit]
  exact (decodes_readU32 endian pid).bind ((decodes_readU32 endian tid).map _)

theorem decodes_readCallchain (backtrace : Bool) (callchain : List UInt64)
    (hlen : backtrace = true → callchain.length < 2 ^ 64) :
    Decodes (readCallchain endian (sampleTypeOf backtrace) : Reading n (Option (List UInt64)))
      (PerfRecord.callchainBytes endian backtrace callchain)
      (if backtrace then some callchain else none) := by
  cases backtrace with
  | false =>
      have hbit : ¬ sampleTypeOf false &&& perfSampleCallchain ≠ 0 := by decide
      rw [readCallchain, if_neg hbit]
      exact .pure none
  | true =>
      have hbit : sampleTypeOf true &&& perfSampleCallchain ≠ 0 := by decide
      have hsize : (UInt64.ofNat callchain.length).toNat = callchain.length :=
        UInt64.toNat_ofNat_of_lt' (hlen rfl)
      have hcount := decodes_readU64 (n := n) endian (UInt64.ofNat callchain.length)
      rw [hsize] at hcount
      have hvalues := decodes_readU64s (n := n) endian callchain
      rw [← hsize] at hvalues
      rw [readCallchain, if_pos hbit]
      exact hcount.bind (hvalues.map some)

theorem decodes_readRegs (backtrace : Bool) (abi : UInt64) (regs : List UInt64)
    (hregs : regs.length = if abi = 0 then 0 else arch.regsCount) :
    Decodes (readRegs arch endian (sampleTypeOf backtrace) : Reading n (Option (List UInt64)))
      (endian.toBytes 8 abi.toNat ++ u64Bytes endian regs)
      (if abi = 0 then none else some regs) := by
  have hbit : sampleTypeOf backtrace &&& perfSampleRegsUser ≠ 0 := by cases backtrace <;> decide
  rw [readRegs, if_pos hbit]
  refine (decodes_readU64 endian abi).bind ?_
  by_cases habi : abi = 0
  · rw [if_pos habi] at hregs
    rw [if_pos habi, if_pos habi, List.eq_nil_of_length_eq_zero hregs]
    exact .pure none
  · rw [if_neg habi] at hregs
    rw [if_neg habi, if_neg habi, ← hregs]
    exact (decodes_readU64s endian regs).map some

/-- The length of a sample bounds its callchain. -/
theorem PerfRecord.WellFormed.length_callchain_lt {backtrace : Bool} {misc : UInt16}
    {pid tid : UInt32} {callchain : List UInt64} {abi : UInt64} {regs : List UInt64}
    (h : (sample misc pid tid callchain abi regs).WellFormed arch endian backtrace)
    (hbacktrace : backtrace = true) : callchain.length < 2 ^ 64 := by
  have hlt := h.length_lt
  subst hbacktrace
  simp only [length, body, callchainBytes, if_true, List.length_append, length_u64Bytes,
    Endian.length_toBytes] at hlt
  omega

/-- **A sample is read as it was written**, or dropped when it has no ABI. -/
theorem decodes_readSample {backtrace : Bool} {misc : UInt16} {pid tid : UInt32}
    {callchain : List UInt64} {abi : UInt64} {regs : List UInt64}
    (h : (PerfRecord.sample misc pid tid callchain abi regs).WellFormed arch endian backtrace) :
    Decodes (readSample arch endian (sampleTypeOf backtrace) : Reading n (Option SampleData))
      ((PerfRecord.sample misc pid tid callchain abi regs).body endian backtrace)
      ((PerfRecord.sample misc pid tid callchain abi regs).delivered backtrace) := by
  have hregs := h.regs _ _ _ _ _ _ rfl
  have hdelivered : (PerfRecord.sample misc pid tid callchain abi regs).delivered backtrace =
      (if abi = 0 then none else some regs).map fun regs ↦
        { pid, tid, regs, simd := []
          backtrace := if backtrace then some callchain else none } := by
    rw [PerfRecord.delivered]
    split_ifs <;> rfl
  rw [hdelivered]
  exact (decodes_readTid endian backtrace pid tid).bind
    ((decodes_readCallchain endian backtrace callchain h.length_callchain_lt).bind
      ((decodes_readRegs arch endian backtrace abi regs hregs).map _))

end

end Pwatch.Perf
