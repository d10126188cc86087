import Pwatch.Perf.Events
import Pwatch.Runs.Rank

/-!
# The event loop beside the kernel

`PerfMap::events` of `src/perf.rs` as a task that runs while the kernel goes on writing.
The kernel stores a record behind `data_head` when it fits in front of `data_tail`, moves
`data_head`, and wakes the descriptor later, and for samples alone (`wakeup_events = 1`
counts no other record).  The task reads `data_head` anew at every turn, and a guard clears
only the readiness it has seen.

Whatever the order of the two, each sample is handed over once and in the order of the
kernel, and a task that waits for nothing has missed none (`events_concurrent`).
-/

namespace Pwatch.Perf

/-- Where the task that runs `events` stands.  A guard is known by the tick of the readiness
it was made for. -/
inductive Phase
  | /-- At `readable().await`. -/
    waiting
  | /-- At the condition of the inner loop, with `processed`. -/
    turning (guard processed : Nat)
  | /-- Behind `read_header`. -/
    opened (guard processed : Nat) (header : PerfEventHeader)
  | /-- Behind `handle(data)`. -/
    handled (guard processed : Nat) (header : PerfEventHeader)
  | /-- Behind the inner loop. -/
    drained (guard processed : Nat)
  | /-- At `guard.clear_ready()`. -/
    clearing (guard : Nat)
deriving DecidableEq, Repr

/-- The mapping, the task and the kernel. -/
structure Machine (dataSize : Nat) where
  map : PerfMap dataSize
  phase : Phase
  /-- How often the descriptor has become readable. -/
  tick : Nat
  /-- The record the kernel has stored behind `data_head`. -/
  storing : Option PerfRecord
  /-- A wake-up of the kernel is under way. -/
  wakeup : Bool

/-- What happens to a mapping that is read. -/
inductive Event
  | stored (r : PerfRecord)
  | published (r : PerfRecord)
  | woken
  | polled
  | opened
  | handled
  | advanced
  | left
  | caughtUp
  | more
  | cleared
deriving Repr

/-- The records whose end `data_head` has passed. -/
def published (es : List Event) : List PerfRecord :=
  es.filterMap fun
    | .published r => some r
    | _ => none

theorem published_snoc (es : List Event) (e : Event) :
    published (es ++ [e]) = published es ++ published [e] := by
  rw [published, published, published, List.filterMap_append]

namespace PerfMap

variable {n : Nat} (arch : Arch) (endian : Endian)

/-- What a record with this header hands to the handler. -/
def sampleOf (s : PerfMap n) (header : PerfEventHeader) : Option SampleData :=
  if header.type = perfRecordSample then (readSample arch endian s.sampleType (s.reader 8)).1
  else none

/-- `read_sample` and `handle`. -/
def handle (s : PerfMap n) (header : PerfEventHeader) : PerfMap n :=
  { s with handled := s.handled ++ (s.sampleOf arch endian header).toList }

/-- Add a record to `read_data_size`, and tell the kernel. -/
def advance (s : PerfMap n) (header : PerfEventHeader) : PerfMap n :=
  let readDataSize := s.readDataSize + header.size.toUInt64
  { s with readDataSize, dataTail := readDataSize }

end PerfMap

namespace Machine

variable {n : Nat} (arch : Arch) (endian : Endian) (backtrace : Bool)

/-- The bytes that are not given back to the kernel. -/
def unread (s : Machine n) : Nat := s.map.dataHead.toNat - s.map.dataTail.toNat

/-- A mapping that was just made. -/
def start (data : Ring UInt8 n) : Machine n where
  map := {
    data, dataHead := 0, dataTail := 0, sampleType := sampleTypeOf backtrace
    readDataSize := 0, ready := false, handled := [] }
  phase := .waiting
  tick := 0
  storing := none
  wakeup := false

/-- The steps of the kernel and of the task. -/
inductive Step (s : Machine n) : Event → Machine n → Prop
  | /-- The kernel copies a record into room that is free. -/
    store {r : PerfRecord} (hidle : s.storing = none) (hwf : r.WellFormed arch endian backtrace)
      (hroom : s.unread + r.length endian backtrace ≤ n)
      (hcount : s.map.dataHead.toNat + r.length endian backtrace < 2 ^ 64) :
      Step s (.stored r) { s with
        map := { s.map with
          data := s.map.data.write s.map.dataHead.toNat (r.encode endian backtrace) }
        storing := some r }
  | /-- It moves `data_head`, and a sample is to wake the task. -/
    publish {r : PerfRecord} (hstoring : s.storing = some r) :
      Step s (.published r) { s with
        map := { s.map with
          dataHead := s.map.dataHead + UInt64.ofNat (r.length endian backtrace) }
        storing := none
        wakeup := s.wakeup || r.type = perfRecordSample }
  | /-- The wake-up arrives. -/
    wake (hwakeup : s.wakeup = true) :
      Step s .woken { s with
        map := { s.map with ready := true }, tick := s.tick + 1, wakeup := false }
  | poll (hp : s.phase = .waiting) (hready : s.map.ready = true) :
      Step s .polled { s with phase := .turning s.tick 0 }
  | readHeader {guard processed : Nat} (hp : s.phase = .turning guard processed)
      (hhead : s.map.dataHead ≠ s.map.readDataSize) (hturns : processed < maxEventsPerReadiness) :
      Step s .opened { s with phase := .opened guard processed (s.map.nextHeader endian) }
  | handle {guard processed : Nat} {header : PerfEventHeader}
      (hp : s.phase = .opened guard processed header) :
      Step s .handled { s with
        map := s.map.handle arch endian header, phase := .handled guard processed header }
  | advance {guard processed : Nat} {header : PerfEventHeader}
      (hp : s.phase = .handled guard processed header) :
      Step s .advanced { s with
        map := s.map.advance header, phase := .turning guard (processed + 1) }
  | leave {guard processed : Nat} (hp : s.phase = .turning guard processed)
      (hdone : s.map.dataHead = s.map.readDataSize ∨ maxEventsPerReadiness ≤ processed) :
      Step s .left { s with phase := .drained guard processed }
  | catchUp {guard processed : Nat} (hp : s.phase = .drained guard processed)
      (hhead : s.map.dataHead = s.map.readDataSize) :
      Step s .caughtUp { s with phase := .clearing guard }
  | more {guard processed : Nat} (hp : s.phase = .drained guard processed)
      (hhead : s.map.dataHead ≠ s.map.readDataSize) :
      Step s .more { s with phase := .waiting }
  | /-- Only the readiness the guard has seen is cleared. -/
    clear {guard : Nat} (hp : s.phase = .clearing guard) :
      Step s .cleared { s with
        map := { s.map with ready := s.map.ready && s.tick ≠ guard }, phase := .waiting }

/-- The task and the wake-up, while the kernel writes nothing. -/
def Consumes (s : Machine n) (e : Event) (t : Machine n) : Prop :=
  Step arch endian backtrace s e t ∧ ∀ r, e ≠ .stored r ∧ e ≠ .published r

/-! ## The invariant -/

end Machine

namespace Phase

/-- The tick of the guard that is held. -/
def guard : Phase → Option Nat
  | .waiting => none
  | .turning guard _ | .opened guard _ _ | .handled guard _ _ | .drained guard _
  | .clearing guard => some guard

/-- The header that was read. -/
def header : Phase → Option PerfEventHeader
  | .opened _ _ header | .handled _ _ header => some header
  | .waiting | .turning _ _ | .drained _ _ | .clearing _ => none

/-- How many of the unread records have been handed over. -/
def inHand : Phase → Nat
  | .handled _ _ _ => 1
  | .waiting | .turning _ _ | .opened _ _ _ | .drained _ _ | .clearing _ => 0

end Phase

namespace Machine

variable {n : Nat}

/-- The task is about to wait, or waits, with nothing that would wake it. -/
def Silent (s : Machine n) : Prop :=
  s.wakeup = false ∧
    ((s.phase = .waiting ∧ s.map.ready = false) ∨ s.phase = .clearing s.tick)

section

variable (arch : Arch) (endian : Endian) (backtrace : Bool)

/-- The record that is stored behind `data_head` is whole and has room. -/
structure Stored (s : Machine n) (r : PerfRecord) : Prop where
  wellFormed : r.WellFormed arch endian backtrace
  room : s.unread + r.length endian backtrace ≤ n
  count : s.map.dataHead.toNat + r.length endian backtrace < 2 ^ 64
  holds : s.map.data.Holds s.map.dataHead.toNat (r.encode endian backtrace)

/-- How the published records are divided: those given back to the kernel, and the rest. -/
structure Divided (s : Machine n) (done rest : List PerfRecord) : Prop where
  remaining : s.map.Remaining arch endian backtrace rest
  given : s.map.dataTail.toNat = (PerfMap.encodeAll endian backtrace done).length
  room : s.unread ≤ n
  stored : ∀ r, s.storing = some r → Stored arch endian backtrace s r
  header : ∀ header, s.phase.header = some header →
    ∃ r rest', rest = r :: rest' ∧ header = r.header endian backtrace
  handled_eq : s.map.handled =
    (done ++ rest.take s.phase.inHand).filterMap (PerfRecord.delivered backtrace)
  guard : ∀ g, s.phase.guard = some g → g ≤ s.tick ∧ s.map.ready = true
  silent : Silent s → rest.filterMap (PerfRecord.delivered backtrace) = []

end

variable {arch : Arch} {endian : Endian} {backtrace : Bool} {s t : Machine n}
  {done rest : List PerfRecord} {e : Event}

/-- The task changes nothing that the kernel has stored. -/
theorem Stored.frame {r : PerfRecord} (h : Stored arch endian backtrace s r)
    (hdata : t.map.data = s.map.data) (hhead : t.map.dataHead = s.map.dataHead)
    (hunread : t.unread ≤ s.unread) : Stored arch endian backtrace t r where
  wellFormed := h.wellFormed
  room := (Nat.add_le_add_right hunread _).trans h.room
  count := hhead ▸ h.count
  holds := by
    rw [hdata, hhead]
    exact h.holds

namespace Divided

theorem unread_eq (h : Divided arch endian backtrace s done rest) :
    s.unread = (PerfMap.encodeAll endian backtrace rest).length := by
  rw [unread, h.remaining.tail_eq, h.remaining.head_eq, Nat.add_sub_cancel_left]

theorem start (data : Ring UInt8 n) :
    Divided arch endian backtrace (Machine.start backtrace data) [] [] where
  remaining := ⟨rfl, trivial, rfl, rfl, by simp⟩
  given := rfl
  room := by simp [unread, Machine.start]
  stored := by simp [Machine.start]
  header := by simp [Machine.start, Phase.header]
  handled_eq := rfl
  guard := by simp [Machine.start, Phase.guard]
  silent := fun _ ↦ rfl

/-- The kernel writes where nothing is read. -/
theorem store {r : PerfRecord} (h : Divided arch endian backtrace s done rest)
    (hwf : r.WellFormed arch endian backtrace)
    (hroom : s.unread + r.length endian backtrace ≤ n)
    (hcount : s.map.dataHead.toNat + r.length endian backtrace < 2 ^ 64) :
    Divided arch endian backtrace { s with
      map := { s.map with
        data := s.map.data.write s.map.dataHead.toNat (r.encode endian backtrace) }
      storing := some r } done rest := by
  have hhead := h.remaining.head_eq
  have hunread := h.unread_eq
  have hkept : (s.map.data.write s.map.dataHead.toNat (r.encode endian backtrace)).Holds
      s.map.readDataSize.toNat (PerfMap.encodeAll endian backtrace rest) :=
    h.remaining.holds.write hhead.ge (by rw [PerfRecord.length_encode]; omega)
  have hrecord : (s.map.data.write s.map.dataHead.toNat (r.encode endian backtrace)).Holds
      s.map.dataHead.toNat (r.encode endian backtrace) :=
    s.map.data.holds_write _ (by rw [PerfRecord.length_encode]; omega)
  exact {
    remaining := ⟨h.remaining.sampleType_eq, hkept, hhead, h.remaining.tail_eq,
      h.remaining.wellFormed⟩
    given := h.given
    room := h.room
    stored := fun _ heq ↦ Option.some.inj heq ▸ ⟨hwf, hroom, hcount, hrecord⟩
    header := h.header
    handled_eq := h.handled_eq
    guard := h.guard
    silent := h.silent }

/-- A record that is no sample hands nothing over. -/
theorem delivered_eq_none {r : PerfRecord} (hr : r.type ≠ perfRecordSample) :
    r.delivered backtrace = none := by
  cases r with
  | sample => exact absurd rfl hr
  | lost => rfl
  | other => rfl

/-- What stands behind `data_head` becomes the last of the rest. -/
theorem publish {r : PerfRecord} (h : Divided arch endian backtrace s done rest)
    (hstoring : s.storing = some r) :
    Divided arch endian backtrace { s with
      map := { s.map with dataHead := s.map.dataHead + UInt64.ofNat (r.length endian backtrace) }
      storing := none
      wakeup := s.wakeup || r.type = perfRecordSample } done (rest ++ [r]) := by
  obtain ⟨hwf, hroom, hcount, hholds⟩ := h.stored r hstoring
  have hhead := h.remaining.head_eq
  have hnew : (s.map.dataHead + UInt64.ofNat (r.length endian backtrace)).toNat =
      s.map.dataHead.toNat + r.length endian backtrace := by
    have hlen : (UInt64.ofNat (r.length endian backtrace)).toNat = r.length endian backtrace :=
      UInt64.toNat_ofNat_of_lt' (Nat.lt_of_le_of_lt (Nat.le_add_left _ _) hcount)
    rw [UInt64.toNat_add, hlen]
    exact Nat.mod_eq_of_lt hcount
  have hall : PerfMap.encodeAll endian backtrace (rest ++ [r]) =
      PerfMap.encodeAll endian backtrace rest ++ r.encode endian backtrace := by
    simp [PerfMap.encodeAll]
  have hinHand : ∀ k, k ≤ rest.length → (rest ++ [r]).take k = rest.take k := fun k hk ↦
    List.take_append_of_le_length hk
  exact {
    remaining := {
      sampleType_eq := h.remaining.sampleType_eq
      holds := by
        rw [hall, Ring.holds_append, ← hhead]
        exact ⟨h.remaining.holds, hholds⟩
      head_eq := by
        rw [hall, List.length_append, PerfRecord.length_encode, ← Nat.add_assoc, ← hhead]
        exact hnew
      tail_eq := h.remaining.tail_eq
      wellFormed := fun r' hr' ↦ by
        rcases List.mem_append.mp hr' with hr' | hr'
        · exact h.remaining.wellFormed r' hr'
        · exact List.mem_singleton.mp hr' ▸ hwf }
    given := h.given
    room := by
      rw [unread] at hroom ⊢
      simp only [hnew]
      omega
    stored := fun _ heq ↦ absurd heq (by simp)
    header := fun header heq ↦ by
      obtain ⟨r', rest', rfl, hr'⟩ := h.header header heq
      exact ⟨r', rest' ++ [r], rfl, hr'⟩
    handled_eq := by
      have hk : s.phase.inHand ≤ rest.length := by
        cases hp : s.phase with
        | handled guard processed header =>
            obtain ⟨r', rest', rfl, -⟩ := h.header header (by rw [hp, Phase.header])
            simp [Phase.inHand]
        | _ => simp [Phase.inHand]
      rw [hinHand _ hk]
      exact h.handled_eq
    guard := h.guard
    silent := fun hsilent ↦ by
      obtain ⟨hwakeup, hidle⟩ := hsilent
      obtain ⟨hwakeup, hr⟩ := Bool.or_eq_false_iff.mp hwakeup
      rw [List.filterMap_append, h.silent ⟨hwakeup, hidle⟩, List.nil_append,
        List.filterMap_cons_none (delivered_eq_none (of_decide_eq_false hr)),
        List.filterMap_nil] }

/-- The task goes on to where it has no record open, and the readiness may change. -/
theorem move (h : Divided arch endian backtrace s done rest) {p : Phase} {ready : Bool}
    {tick : Nat} {wakeup : Bool} (hclosed : s.phase.inHand = 0) (hheader : p.header = none)
    (hinHand : p.inHand = 0)
    (hguard : ∀ g, p.guard = some g → g ≤ tick ∧ ready = true)
    (hsilent : Silent { s with map := { s.map with ready }, phase := p, tick, wakeup } →
      rest.filterMap (PerfRecord.delivered backtrace) = []) :
    Divided arch endian backtrace
      { s with map := { s.map with ready }, phase := p, tick, wakeup } done rest where
  remaining := ⟨h.remaining.sampleType_eq, h.remaining.holds, h.remaining.head_eq,
    h.remaining.tail_eq, h.remaining.wellFormed⟩
  given := h.given
  room := h.room
  stored := fun r heq ↦ (h.stored r heq).frame rfl rfl le_rfl
  header := fun header heq ↦ absurd (hheader.symm.trans heq) (by simp)
  handled_eq := by
    have heq := h.handled_eq
    rw [hclosed] at heq
    simp only [hinHand]
    exact heq
  guard := hguard
  silent := hsilent

/-- The sample of the next record is handed over. -/
theorem handle (h : Divided arch endian backtrace s done rest) {guard processed : Nat}
    {header : PerfEventHeader} (hp : s.phase = .opened guard processed header) :
    Divided arch endian backtrace { s with
      map := s.map.handle arch endian header, phase := .handled guard processed header }
      done rest := by
  obtain ⟨r, rest', rfl, hheader⟩ := h.header header (by rw [hp, Phase.header])
  have hsample : s.map.sampleOf arch endian header = r.delivered backtrace := by
    rw [hheader, ← h.remaining.nextHeader_eq]
    exact h.remaining.nextSample_eq
  have hhandled : s.map.handled = done.filterMap (PerfRecord.delivered backtrace) := by
    have heq := h.handled_eq
    rwa [hp, Phase.inHand, List.take_zero, List.append_nil] at heq
  exact {
    remaining := ⟨h.remaining.sampleType_eq, h.remaining.holds, h.remaining.head_eq,
      h.remaining.tail_eq, h.remaining.wellFormed⟩
    given := h.given
    room := h.room
    stored := fun r' heq ↦ (h.stored r' heq).frame rfl rfl le_rfl
    header := fun header' heq ↦ ⟨r, rest', rfl, Option.some.inj heq ▸ hheader⟩
    handled_eq := by
      change s.map.handled ++ (s.map.sampleOf arch endian header).toList = _
      rw [hsample, hhandled, Phase.inHand, List.take_succ_cons, List.take_zero, ← filterMap_snoc]
    guard := fun g hg ↦ h.guard g (by rw [hp]; exact hg)
    silent := fun hsilent ↦ absurd hsilent.2 (by simp) }

/-- The room of a record goes back to the kernel. -/
theorem unread_advance (h : Divided arch endian backtrace s done rest) {guard processed : Nat}
    {header : PerfEventHeader} (hp : s.phase = .handled guard processed header)
    (ht : t.map = s.map.advance header) : t.unread + 8 ≤ s.unread := by
  obtain ⟨r, rest', rfl, hheader⟩ := h.header header (by rw [hp, Phase.header])
  have htail : t.map.dataTail = (s.map.consume arch endian).readDataSize := by
    rw [ht, hheader, ← h.remaining.nextHeader_eq]
    rfl
  have hhead : t.map.dataHead = s.map.dataHead := by
    rw [ht]
    rfl
  have hfirst : 8 ≤ r.length endian backtrace := Nat.le_add_right _ _
  have hlength := h.remaining.head_eq
  rw [PerfMap.encodeAll_cons, List.length_append, PerfRecord.length_encode] at hlength
  rw [unread, unread, hhead, htail, h.remaining.readDataSize_consume, h.remaining.tail_eq]
  omega

/-- A record that was handed over is given back. -/
theorem advance (h : Divided arch endian backtrace s done rest) {guard processed : Nat}
    {header : PerfEventHeader} (hp : s.phase = .handled guard processed header) :
    ∃ r rest', rest = r :: rest' ∧
      Divided arch endian backtrace { s with
        map := s.map.advance header, phase := .turning guard (processed + 1) }
        (done ++ [r]) rest' := by
  obtain ⟨r, rest', rfl, hheader⟩ := h.header header (by rw [hp, Phase.header])
  -- the same as a turn of the loop alone, but for what the handler was called with
  obtain ⟨hrest, -⟩ := h.remaining.consume
  have hadvance : s.map.advance header =
      { s.map.consume arch endian with handled := s.map.handled } := by
    rw [hheader, ← h.remaining.nextHeader_eq]
    rfl
  have hunread : ∀ m : Machine n, m.map = s.map.advance header → m.unread ≤ s.unread :=
    fun m hm ↦ by
      have hlt := h.unread_advance hp hm
      omega
  refine ⟨r, rest', rfl, {
    remaining := by
      rw [hadvance]
      exact ⟨hrest.sampleType_eq, hrest.holds, hrest.head_eq, hrest.tail_eq, hrest.wellFormed⟩
    given := by
      have htail := h.remaining.readDataSize_consume
      have hgiven := h.given
      rw [h.remaining.tail_eq] at hgiven
      have hall : PerfMap.encodeAll endian backtrace (done ++ [r]) =
          PerfMap.encodeAll endian backtrace done ++ r.encode endian backtrace := by
        simp [PerfMap.encodeAll]
      rw [hall, List.length_append, PerfRecord.length_encode, ← hgiven, hadvance]
      exact htail
    room := (hunread _ rfl).trans h.room
    stored := fun r' heq ↦ (h.stored r' heq).frame (by rw [hadvance]; rfl) (by rw [hadvance]; rfl)
      (hunread _ rfl)
    header := fun header' heq ↦ absurd heq (by simp [Phase.header])
    handled_eq := ?_
    guard := fun g hg ↦ h.guard g (by rw [hp]; exact hg)
    silent := fun hsilent ↦ absurd hsilent.2 (by simp) }⟩
  have heq := h.handled_eq
  rw [hp, Phase.inHand, List.take_succ_cons, List.take_zero] at heq
  rw [Phase.inHand, List.take_zero, List.append_nil]
  exact heq

/-- **The step lemma**: a step publishes a record at the end, or changes where the task
stands among the records there are. -/
theorem step (h : Divided arch endian backtrace s done rest)
    (hstep : Step arch endian backtrace s e t) :
    ∃ done' rest', done' ++ rest' = done ++ rest ++ published [e] ∧
      Divided arch endian backtrace t done' rest' := by
  cases hstep with
  | store _ hwf hroom hcount => exact ⟨done, rest, by simp [published], h.store hwf hroom hcount⟩
  | publish hstoring => exact ⟨done, rest ++ [_], by simp [published], h.publish hstoring⟩
  | wake hwakeup =>
      refine ⟨done, rest, by simp [published], { h with
        remaining := ⟨h.remaining.sampleType_eq, h.remaining.holds, h.remaining.head_eq,
          h.remaining.tail_eq, h.remaining.wellFormed⟩
        stored := fun r heq ↦ (h.stored r heq).frame rfl rfl le_rfl
        guard := fun g hg ↦ ⟨(h.guard g hg).1.trans (Nat.le_succ _), rfl⟩
        silent := ?_ }⟩
      -- a guard that was made before does not clear what has just arrived
      rintro ⟨-, ⟨-, hready⟩ | hclearing⟩
      · cases hready
      · have hle := (h.guard (s.tick + 1) (by rw [show s.phase = _ from hclearing]; rfl)).1
        omega
  | poll hp hready =>
      refine ⟨done, rest, by simp [published], ?_⟩
      exact h.move (by rw [hp]; rfl) rfl rfl
        (fun g hg ↦ ⟨(Option.some.inj hg).ge, hready⟩) (fun hsilent ↦ absurd hsilent.2 (by simp))
  | readHeader hp hhead _ =>
      refine ⟨done, rest, by simp [published], { h with
        stored := fun r heq ↦ (h.stored r heq).frame rfl rfl le_rfl
        header := fun header heq ↦ ?_
        handled_eq := by rw [h.handled_eq, hp]; rfl
        guard := fun g hg ↦ h.guard g (by rw [hp]; exact hg)
        silent := fun hsilent ↦ absurd hsilent.2 (by simp) }⟩
      cases rest with
      | nil => exact absurd (h.remaining.head_eq_iff.mpr rfl) hhead
      | cons r rest' =>
          exact ⟨r, rest', rfl, (Option.some.inj heq).symm.trans h.remaining.nextHeader_eq⟩
  | handle hp => exact ⟨done, rest, by simp [published], h.handle hp⟩
  | advance hp =>
      obtain ⟨r, rest', rfl, hadvanced⟩ := h.advance hp
      exact ⟨done ++ [r], rest', by simp [published], hadvanced⟩
  | leave hp _ =>
      refine ⟨done, rest, by simp [published], ?_⟩
      exact h.move (by rw [hp]; rfl) rfl rfl (fun g hg ↦ h.guard g (by rw [hp]; exact hg))
        (fun hsilent ↦ absurd hsilent.2 (by simp))
  | catchUp hp hhead =>
      refine ⟨done, rest, by simp [published], ?_⟩
      refine h.move (by rw [hp]; rfl) rfl rfl (fun g hg ↦ h.guard g (by rw [hp]; exact hg)) ?_
      rw [h.remaining.head_eq_iff.mp hhead]
      exact fun _ ↦ rfl
  | more hp _ =>
      refine ⟨done, rest, by simp [published], ?_⟩
      refine h.move (by rw [hp]; rfl) rfl rfl (fun g hg ↦ absurd hg (by simp [Phase.guard])) ?_
      have hready := (h.guard _ (by rw [hp]; rfl)).2
      rintro ⟨-, ⟨-, hnot⟩ | hclearing⟩
      · exact absurd (hready.symm.trans hnot) (by simp)
      · cases hclearing
  | @clear guard hp =>
      refine ⟨done, rest, by simp [published], ?_⟩
      refine h.move (by rw [hp]; rfl) rfl rfl (fun g hg ↦ absurd hg (by simp [Phase.guard])) ?_
      have hready := (h.guard guard (by rw [hp]; rfl)).2
      rintro ⟨hwakeup, ⟨-, hnot⟩ | hclearing⟩
      · have htick : s.tick = guard := by simpa [hready] using hnot
        exact h.silent ⟨hwakeup, .inr (by rw [hp, htick])⟩
      · cases hclearing

end Divided

/-- **The run lemma.** -/
theorem divided {data : Ring UInt8 n} {es : List Event}
    (hrun : Run (Step arch endian backtrace) (start backtrace data) es s) :
    ∃ done rest, done ++ rest = published es ∧ Divided arch endian backtrace s done rest := by
  induction hrun with
  | nil => exact ⟨[], [], rfl, Divided.start data⟩
  | snoc _ he ih =>
      obtain ⟨done, rest, hall, h⟩ := ih
      obtain ⟨done', rest', hall', h'⟩ := h.step he
      exact ⟨done', rest', by rw [hall', hall, ← published_snoc], h'⟩

/-! ## The task comes to rest -/

/-- Another pass is to follow this one. -/
def again (s : Machine n) : Bool :=
  match s.phase with
  | .waiting => s.map.ready
  | .turning guard processed | .opened guard processed _ | .handled guard processed _ =>
      s.tick ≠ guard || 0 < processed
  | .drained guard processed =>
      s.tick ≠ guard || 0 < processed || s.map.dataHead ≠ s.map.readDataSize
  | .clearing guard => s.tick ≠ guard

/-- How far a phase is from the end of its pass. -/
def toGo : Phase → Nat
  | .waiting => 0
  | .clearing _ => 1
  | .drained _ _ => 2
  | .handled _ _ _ => 3
  | .opened _ _ _ => 4
  | .turning _ _ => 5

/-- What is left to do while the kernel writes nothing: a record is worth more than a pass,
and a wake-up is worth a pass. -/
def rank (s : Machine n) : Nat :=
  20 * s.unread + 10 * s.wakeup.toNat + 9 * s.again.toNat + toGo s.phase

theorem rank_le (s : Machine n) : s.rank ≤ 20 * s.unread + 24 := by
  have hwakeup := s.wakeup.toNat_le
  have hagain := s.again.toNat_le
  have hphase : toGo s.phase ≤ 5 := by cases s.phase <;> simp [toGo]
  rw [rank]
  omega

/-- Every step of the task, and every wake-up, brings it nearer to its rest. -/
theorem rank_lt (h : Divided arch endian backtrace s done rest)
    (hstep : Consumes arch endian backtrace s e t) : t.rank < s.rank := by
  obtain ⟨hstep, hquiet⟩ := hstep
  cases hstep with
  | store => exact absurd rfl (hquiet _).1
  | publish => exact absurd rfl (hquiet _).2
  | wake hwakeup =>
      -- the wake-up pays for the pass it may ask for
      have hagain := (Machine.again { s with
        map := { s.map with ready := true }, tick := s.tick + 1, wakeup := false }).toNat_le
      simp only [rank, unread, hwakeup, Bool.toNat_true, Bool.toNat_false] at hagain ⊢
      omega
  | poll hp hready => simp [rank, unread, again, toGo, hp, hready]
  | readHeader hp hhead _ => simp [rank, unread, again, toGo, hp]
  | handle hp => simp [rank, unread, again, toGo, hp, PerfMap.handle]
  | @advance guard processed header hp =>
      have hunread := h.unread_advance (t := { s with
        map := s.map.advance header, phase := .turning guard (processed + 1) }) hp rfl
      have hagain := (Machine.again { s with
        map := s.map.advance header, phase := .turning guard (processed + 1) }).toNat_le
      simp only [rank, toGo, hp] at hunread hagain ⊢
      omega
  | leave hp hdone =>
      rcases hdone with hhead | hturns
      · simp [rank, unread, again, toGo, hp, hhead]
      · have hpos : 0 < maxEventsPerReadiness := by decide
        have hprocessed := hpos.trans_le hturns
        simp [rank, unread, again, toGo, hp, hprocessed]
  | @catchUp guard processed hp hhead =>
      by_cases htick : s.tick = guard
      · simp only [rank, unread, again, toGo, hp, htick, ne_eq, not_true_eq_false, decide_false,
          Bool.toNat_false]
        omega
      · simp [rank, unread, again, toGo, hp, htick]
  | more hp hhead =>
      have hready : s.map.ready.toNat ≤ 1 := s.map.ready.toNat_le
      simp only [rank, unread, again, toGo, hp, hhead, ne_eq, not_false_eq_true, decide_true,
        Bool.or_true, Bool.toNat_true]
      omega
  | @clear guard hp =>
      have hready : (s.map.ready && s.tick ≠ guard).toNat ≤ (decide (s.tick ≠ guard)).toNat := by
        cases s.map.ready <;> simp
      simp only [rank, unread, again, toGo, hp]
      omega

/-- A task that can do nothing waits for a kernel that owes it no wake-up. -/
theorem silent_of_stuck (hstuck : ∀ e t, ¬ Consumes arch endian backtrace s e t) : Silent s := by
  have hnone : ∀ {e t}, Step arch endian backtrace s e t →
      ∃ r, e = .stored r ∨ e = .published r := by
    intro e t hstep
    by_contra hquiet
    simp only [not_exists, not_or] at hquiet
    exact hstuck e t ⟨hstep, hquiet⟩
  have hwakeup : s.wakeup = false := by
    by_contra hwakeup
    obtain ⟨r, hr⟩ := hnone (.wake (by simpa using hwakeup))
    simp at hr
  refine ⟨hwakeup, .inl ?_⟩
  cases hp : s.phase with
  | waiting =>
      refine ⟨rfl, ?_⟩
      by_contra hready
      obtain ⟨r, hr⟩ := hnone (.poll hp (by simpa using hready))
      simp at hr
  | turning guard processed =>
      by_cases hturn : s.map.dataHead ≠ s.map.readDataSize ∧ processed < maxEventsPerReadiness
      · obtain ⟨r, hr⟩ := hnone (.readHeader hp hturn.1 hturn.2)
        simp at hr
      · have hdone := not_and_or.mp hturn
        rw [not_not, not_lt] at hdone
        obtain ⟨r, hr⟩ := hnone (.leave hp hdone)
        simp at hr
  | opened guard processed header =>
      obtain ⟨r, hr⟩ := hnone (.handle hp)
      simp at hr
  | handled guard processed header =>
      obtain ⟨r, hr⟩ := hnone (.advance hp)
      simp at hr
  | drained guard processed =>
      by_cases hhead : s.map.dataHead = s.map.readDataSize
      · obtain ⟨r, hr⟩ := hnone (.catchUp hp hhead)
        simp at hr
      · obtain ⟨r, hr⟩ := hnone (.more hp hhead)
        simp at hr
  | clearing guard =>
      obtain ⟨r, hr⟩ := hnone (.clear hp)
      simp at hr

/-! ## The result -/

/-- The task alone publishes nothing. -/
theorem published_consumes {es : List Event} (hrun : Run (Consumes arch endian backtrace) s es t) :
    published es = [] := by
  induction hrun with
  | nil => rfl
  | @snoc es t u e _ he ih =>
      rw [published_snoc, ih, List.nil_append]
      cases e with
      | published r => exact absurd rfl (he.2 r).2
      | _ => rfl

/-- Once the kernel stops, the task comes to rest. -/
theorem length_le_of_consumes {es : List Event} (h : Divided arch endian backtrace s done rest)
    (hrun : Run (Consumes arch endian backtrace) s es t) : es.length ≤ 20 * s.unread + 24 := by
  obtain ⟨-, hle⟩ := hrun.length_add_rank_le
    (fun s ↦ ∃ done rest, Divided arch endian backtrace s done rest) rank ⟨done, rest, h⟩ <| by
      rintro s e t ⟨done, rest, h⟩ hstep
      obtain ⟨done', rest', -, h'⟩ := h.step hstep.1
      exact ⟨⟨done', rest', h'⟩, rank_lt h hstep⟩
  have hrank := s.rank_le
  omega

/-- **The ring is shared without loss.**  Whatever the order of the kernel and the task,

* the handler was called with the samples of the first published records, in order;
* `data_tail` never passes `data_head`, which is never more than a ring ahead, and between
  them stand the bytes of the records as the kernel wrote them;
* once the kernel stops, the task and the wake-ups come to rest within so many steps;
* and where they can do no more, every sample was handed over. -/
theorem events_concurrent {data : Ring UInt8 n} {es : List Event}
    (hrun : Run (Step arch endian backtrace) (start backtrace data) es s) :
    let bytes := PerfMap.encodeAll endian backtrace (published es)
    (∃ handed waiting, published es = handed ++ waiting ∧
        s.map.handled = handed.filterMap (PerfRecord.delivered backtrace)) ∧
      s.map.dataHead.toNat = bytes.length ∧
      s.map.dataTail ≤ s.map.dataHead ∧ s.map.dataHead.toNat ≤ s.map.dataTail.toNat + n ∧
      s.map.data.Holds s.map.dataTail.toNat (bytes.drop s.map.dataTail.toNat) ∧
      ∀ fs t, Run (Consumes arch endian backtrace) s fs t →
        fs.length ≤ 20 * s.unread + 24 ∧
          ((∀ e u, ¬ Consumes arch endian backtrace t e u) →
            t.map.handled = (published es).filterMap (PerfRecord.delivered backtrace)) := by
  intro bytes
  obtain ⟨done, rest, hall, h⟩ := divided hrun
  have hbytes : bytes = PerfMap.encodeAll endian backtrace done ++
      PerfMap.encodeAll endian backtrace rest := by
    simp only [bytes, ← hall, PerfMap.encodeAll, List.flatMap_append]
  have hhead := h.remaining.head_eq
  have hroom := h.room
  have hunread := h.unread_eq
  rw [← h.remaining.tail_eq, h.given] at hhead
  refine ⟨⟨done ++ rest.take s.phase.inHand, rest.drop s.phase.inHand, ?_, h.handled_eq⟩,
    ?_, ?_, ?_, ?_, fun fs t hfs ↦ ⟨?_, fun hstuck ↦ ?_⟩⟩
  · rw [List.append_assoc, List.take_append_drop, hall]
  · rw [hbytes, List.length_append, hhead]
  · rw [UInt64.le_iff_toNat_le, h.given, hhead]
    exact Nat.le_add_right _ _
  · rw [h.given]
    omega
  · rw [hbytes, h.given, List.drop_left, ← h.given, h.remaining.tail_eq]
    exact h.remaining.holds
  · exact length_le_of_consumes h hfs
  · have hrun' : Run (Step arch endian backtrace) (start backtrace data) (es ++ fs) t :=
      hrun.append (hfs.mono fun _ _ _ hstep ↦ hstep.1)
    obtain ⟨done', rest', hall', h'⟩ := divided hrun'
    have hsilent := silent_of_stuck hstuck
    have hpublished : published (es ++ fs) = published es := by
      rw [published, List.filterMap_append]
      change published es ++ published fs = published es
      rw [published_consumes hfs, List.append_nil]
    have hinHand : t.phase.inHand = 0 := by
      rcases hsilent.2 with ⟨hp, -⟩ | hp <;> rw [hp, Phase.inHand]
    have hhandled := h'.handled_eq
    rw [hinHand, List.take_zero, List.append_nil] at hhandled
    rw [hhandled, ← hpublished, ← hall', List.filterMap_append, h'.silent hsilent,
      List.append_nil]

/-- One sample through an empty ring, up to the moment the task waits again. -/
theorem events_concurrent_sample :
    let sample := PerfRecord.sample 2 7 8 [] 2 (List.replicate 20 9)
    ∃ s : Machine 256,
      Run (Step .x86_64 .little false) (start false ⟨Vector.replicate 256 0, by decide⟩)
        [.stored sample, .published sample, .woken, .polled, .opened, .handled, .advanced, .left,
          .caughtUp, .cleared] s ∧
      s.phase = .waiting ∧ s.map.dataHead.toNat = 184 ∧
      (∃ handed waiting, [sample] = handed ++ waiting ∧
        s.map.handled = handed.filterMap (PerfRecord.delivered false)) ∧
      s.map.dataTail ≤ s.map.dataHead := by
  intro sample
  have hwf : sample.WellFormed .x86_64 .little false := by
    refine ⟨by decide +kernel, ?_, fun _ _ _ heq ↦ absurd heq (by simp [sample])⟩
    intro misc pid tid callchain abi regs heq
    obtain ⟨-, -, -, -, rfl, rfl⟩ := PerfRecord.sample.inj heq
    decide
  have hrun : Run (Step .x86_64 .little false)
      (start false ⟨Vector.replicate 256 0, by decide⟩ : Machine 256) _ _ :=
    .cons (.store rfl hwf (by decide +kernel) (by decide +kernel)) <|
    .cons (.publish rfl) <| .cons (.wake rfl) <| .cons (.poll rfl rfl) <|
    .cons (.readHeader rfl (by decide +kernel) (by decide)) <| .cons (.handle rfl) <|
    .cons (.advance rfl) <| .cons (.leave rfl (.inl (by decide +kernel))) <|
    .cons (.catchUp rfl (by decide +kernel)) <| .single (.clear rfl)
  obtain ⟨hhanded, hhead, htail, -⟩ := events_concurrent hrun
  exact ⟨_, hrun, rfl, hhead.trans (by decide +kernel), hhanded, htail⟩

end Machine

end Pwatch.Perf
