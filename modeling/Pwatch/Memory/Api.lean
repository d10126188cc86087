import Pwatch.Blocking.Shared
import Pwatch.Memory.Handlers

/-!
# The memory API beside others

`/memory/read` and `/memory/write` of `src/memory_api.rs`, with any number of clients and
with the processes themselves at work on the same memory.  A request that passes its checks
becomes a job of the pool, and the job makes one call of the driver.

What the driver is relied on for: a read that succeeds returns what stands in the range, a
write that succeeds puts its bytes there, and one that fails may have changed any part of the
range and nothing else.
-/

namespace Pwatch.Memory

open Text Blocking

/-! ## Memory -/

/-- The bytes of the processes, where there are any. -/
abbrev Space := Int32 → Nat → Option UInt8

/-- An address of a range. -/
def InRange (pid : Int32) (addr size : Nat) (pid' : Int32) (a : Nat) : Prop :=
  pid' = pid ∧ addr ≤ a ∧ a < addr + size

instance (pid : Int32) (addr size : Nat) (pid' : Int32) (a : Nat) :
    Decidable (InRange pid addr size pid' a) :=
  inferInstanceAs (Decidable (_ ∧ _ ∧ _))

namespace Space

variable {space space' : Space} {pid : Int32} {addr k : Nat} {data : List UInt8}

/-- The bytes stand at the address. -/
def Shows (space : Space) (pid : Int32) (addr : Nat) (data : List UInt8) : Prop :=
  ∀ i, ∀ hi : i < data.length, space pid (addr + i) = some data[i]

/-- The memory with these bytes at the address. -/
def write (space : Space) (pid : Int32) (addr : Nat) (data : List UInt8) : Space := fun pid' a ↦
  if InRange pid addr data.length pid' a then data[a - addr]? else space pid' a

/-- What was written stands there. -/
theorem shows_write : (space.write pid addr data).Shows pid addr data := by
  intro i hi
  have hrange : InRange pid addr data.length pid (addr + i) := ⟨rfl, by omega, by omega⟩
  rw [write, if_pos hrange, Nat.add_sub_cancel_left, List.getElem?_eq_getElem hi]

/-- A part of what stands there. -/
theorem Shows.part (h : space.Shows pid addr data) {size : Nat} (hle : k + size ≤ data.length) :
    space.Shows pid (addr + k) ((data.drop k).take size) := by
  intro i hi
  rw [List.length_take, List.length_drop] at hi
  rw [List.getElem_take, List.getElem_drop, Nat.add_assoc]
  exact h (k + i) (by omega)

/-- There is one sequence of so many bytes at an address. -/
theorem Shows.unique {data' : List UInt8} (h : space.Shows pid addr data)
    (h' : space.Shows pid addr data') (hlen : data.length = data'.length) : data = data' := by
  refine List.ext_getElem hlen fun i hi hi' ↦ ?_
  exact Option.some.inj ((h i hi).symm.trans (h' i hi'))

/-- The range is as it was. -/
def SameOn (space space' : Space) (pid : Int32) (addr size : Nat) : Prop :=
  ∀ a, InRange pid addr size pid a → space' pid a = space pid a

theorem Shows.congr (h : space.Shows pid addr data)
    (hsame : SameOn space space' pid addr data.length) : space'.Shows pid addr data := by
  intro i hi
  rw [hsame (addr + i) ⟨rfl, by omega, by omega⟩]
  exact h i hi

end Space

/-! ## Requests and their jobs -/

/-- A read that has passed `validate`. -/
structure ReadOp where
  request : ReadRequest
  addr : UInt64
  validated : validate request.pid request.addr request.size = .ok addr

/-- A write that has passed `decode_hex` and `validate`. -/
structure WriteOp where
  request : WriteRequest
  data : List UInt8
  addr : UInt64
  decoded : decodeHex request.data = .ok data
  validated : validate request.pid request.addr data.length = .ok addr

/-- What a job is for. -/
inductive Op
  | read (op : ReadOp)
  | write (op : WriteOp)

/-- The body of an answer. -/
inductive Body
  | read (response : ReadResponse)
  | write (response : WriteResponse)
deriving DecidableEq, Repr

/-- The addresses a read asks for. -/
def ReadOp.Covers (op : ReadOp) : Int32 → Nat → Prop :=
  InRange op.request.pid.toInt32 op.addr.toNat op.request.size

/-- The addresses a write may change. -/
def WriteOp.Covers (op : WriteOp) : Int32 → Nat → Prop :=
  InRange op.request.pid.toInt32 op.addr.toNat op.data.length

/-- What the call of the driver does to the memory, and what becomes of it. -/
inductive Acts (space : Space) : Op → Except Str Body → Space → Prop
  | read {op : ReadOp} {data : List UInt8} :
      data.length = op.request.size →
      space.Shows op.request.pid.toInt32 op.addr.toNat data →
      Acts space (.read op) (.ok (.read (formatRead op.request.pid op.addr data))) space
  | readFailed {op : ReadOp} {message : Str} : Acts space (.read op) (.error message) space
  | write {op : WriteOp} :
      Acts space (.write op)
        (.ok (.write ⟨op.request.pid, addrText op.addr, op.data.length⟩))
        (space.write op.request.pid.toInt32 op.addr.toNat op.data)
  | writeFailed {op : WriteOp} {message : Str} {space' : Space} :
      (∀ pid a, ¬ op.Covers pid a → space' pid a = space pid a) →
      Acts space (.write op) (.error message) space'

/-- The handler of a request answers so, on some device. -/
def Op.Handled : Op → Body → Prop
  | .read op, .read response => ∃ device,
      readMemory device .finished (.ok op.request) =
        ([.opened, .readMemory op.request.pid.toInt32 op.addr op.request.size], .ok response)
  | .write op, .write response => ∃ device,
      writeMemory device .finished (.ok op.request) =
        ([.opened, .writeMemory op.request.pid.toInt32 op.addr op.data], .ok response)
  | .read _, .write _ | .write _, .read _ => False

section

variable {space space' : Space} {op : Op} {result : Except Str Body} {pid : Int32} {a : Nat}

/-- A call changes nothing but what a write covers. -/
theorem Acts.same (h : Acts space op result space')
    (hcovers : ∀ wop, op = .write wop → ¬ wop.Covers pid a) : space' pid a = space pid a := by
  cases h with
  | read | readFailed => rfl
  | @write wop => exact if_neg (hcovers wop rfl)
  | @writeFailed wop _ _ hsame => exact hsame pid a (hcovers wop rfl)

/-- **The job of the model is the job of the handler**, on a device that does what was done. -/
theorem Acts.handled {body : Body} (h : Acts space op (.ok body) space') : op.Handled body := by
  cases h with
  | @read op data hlen _ =>
      refine ⟨⟨.ok (), fun _ _ size ↦ if hsize : data.length = size then
        .ok ⟨data.toArray, by simpa using hsize⟩ else .error [], fun _ _ _ ↦ .ok ()⟩, ?_⟩
      simp only [readMemory, op.validated, Blocking.run, readJob, hlen, dite_true]
      simp [Except.map, Except.mapError, answer]
  | @write op =>
      refine ⟨⟨.ok (), fun _ _ _ ↦ .error [], fun _ _ _ ↦ .ok ()⟩, ?_⟩
      simp [writeMemory, op.decoded, op.validated, Blocking.run, writeJob, Except.map,
        Except.mapError, answer]

end

/-! ## The API -/

/-- The API: the pool, the memory and the jobs. -/
abbrev Api := Shared Space Op Body

namespace Api

abbrev Event := Shared.Event Space Op Body

/-- A step of the API. -/
abbrev Step : Api → Event → Api → Prop := Shared.Step Acts

variable {space : Space} {es : List Event} {s : Api}

/-- A read and a write have no address in common. -/
def Disjoint (rop : ReadOp) (wop : WriteOp) : Prop := ∀ pid a, rop.Covers pid a → ¬ wop.Covers pid a

/-- What a write has put in place stands there until somebody touches the range. -/
theorem shows_after_write {w : Nat} {wop : WriteOp} {rop : ReadOp} {k : Nat} {body : Body}
    {first rest : List Event} (hpid : rop.request.pid = wop.request.pid)
    (haddr : rop.addr.toNat = wop.addr.toNat + k)
    (hsize : k + rop.request.size ≤ wop.data.length) {t : Api}
    (hrun : Run Step (.initial space) (first ++ .applied w (.write wop) (.ok body) :: rest) t)
    (hwrites : ∀ r op result, .applied r (.write op) result ∈ rest → r ≠ w → Disjoint rop op)
    (hothers : ∀ m m', .changed m m' ∈ rest →
      m.SameOn m' rop.request.pid.toInt32 rop.addr.toNat rop.request.size) :
    t.state.Shows rop.request.pid.toInt32 rop.addr.toNat
      ((wop.data.drop k).take rop.request.size) := by
  have hlen : ((wop.data.drop k).take rop.request.size).length = rop.request.size := by
    rw [List.length_take, List.length_drop]
    omega
  obtain ⟨u, v, hu, hwrite, hrest⟩ := hrun.split_event
  have hstart : v.state.Shows rop.request.pid.toInt32 rop.addr.toNat
      ((wop.data.drop k).take rop.request.size) := by
    cases hwrite with
    | apply _ _ hacts =>
        cases hacts with
        | write =>
            rw [hpid, haddr]
            exact Space.shows_write.part hsize
  -- the write itself is not done again
  have honce : ∀ op result, .applied w op result ∉ rest := by
    intro op result hmem
    have hle := Shared.length_effects_le hrun w
    have hpos := List.length_pos_of_mem (Shared.mem_effects.mpr hmem)
    have hsplit : Shared.effects w (first ++ .applied w (.write wop) (.ok body) :: rest) =
        Shared.effects w first ++ (.write wop, .ok body) :: Shared.effects w rest := by
      rw [Shared.effects, List.filterMap_append]
      exact congrArg _ (List.filterMap_cons_some (if_pos rfl))
    rw [hsplit, List.length_append, List.length_cons] at hle
    omega
  refine Shared.state_invariant (P := fun m ↦ m.Shows rop.request.pid.toInt32 rop.addr.toNat
    ((wop.data.drop k).take rop.request.size)) hrest hstart ?_ ?_
  · intro r op result hmem m m' hacts hm
    refine hm.congr fun a ha ↦ hacts.same fun op' heq hcovers ↦ ?_
    rw [hlen] at ha
    subst heq
    by_cases hr : r = w
    · exact honce _ _ (hr ▸ hmem)
    · exact hwrites r op' result hmem hr _ a ha hcovers
  · intro m m' hmem hm
    refine hm.congr ?_
    rw [hlen]
    exact hothers m m' hmem

/-- **A client reads what it has written.**  A write is answered with 200, and after that
answer a read of a part of its range is asked for and answered with 200.  If since the write
was admitted nothing else has touched what the read covers, no request, detached or not, and
no process, then the answer shows the bytes that the text of the write stands for. -/
theorem reads_what_it_wrote {w r : Nat} {wop : WriteOp} {rop : ReadOp} {k : Nat}
    {written : WriteResponse} {body : Body} {first waiting between reading : List Event} {t : Api}
    (hpid : rop.request.pid = wop.request.pid) (haddr : rop.addr.toNat = wop.addr.toNat + k)
    (hsize : k + rop.request.size ≤ wop.data.length)
    (hrun : Run Step (.initial space) (first ++ .admitted w (.write wop) :: (waiting ++
      .pool (.answered w (.ok (.write written))) :: (between ++
        .admitted r (.read rop) :: reading))) s)
    (hanswer : Step s (.pool (.answered r (.ok body))) t)
    (hwrites : ∀ r' op result, .applied r' (.write op) result ∈ waiting ++ between ++ reading →
      r' ≠ w → Disjoint rop op)
    (hothers : ∀ m m', .changed m m' ∈ waiting ++ between ++ reading →
      m.SameOn m' rop.request.pid.toInt32 rop.addr.toNat rop.request.size) :
    body = .read (formatRead rop.request.pid rop.addr
      ((wop.data.drop k).take rop.request.size)) := by
  -- the write was done while its client waited, the read while its own did
  obtain ⟨waiting₁, waiting₂, rfl⟩ : ∃ waiting₁ waiting₂, waiting =
      waiting₁ ++ .applied w (.write wop) (.ok (.write written)) :: waiting₂ := by
    rw [List.append_cons, ← List.append_assoc] at hrun
    obtain ⟨u, v, hu, hwritten, -⟩ := hrun.split_event
    rw [← List.append_cons] at hu
    cases hwritten with
    | pool _ hstep => exact Shared.exists_applied_behind hu hstep
  obtain ⟨reading₁, reading₂, rfl⟩ : ∃ reading₁ reading₂, reading =
      reading₁ ++ .applied r (.read rop) (.ok body) :: reading₂ := by
    have hbehind : Run Step (.initial space) ((first ++ .admitted w (.write wop) ::
        (waiting₁ ++ .applied w (.write wop) (.ok (.write written)) :: waiting₂ ++
          .pool (.answered w (.ok (.write written))) :: between)) ++
            .admitted r (.read rop) :: reading) s := by
      simpa using hrun
    cases hanswer with
    | pool _ hstep => exact Shared.exists_applied_behind hbehind hstep
  have hsplit : Run Step (.initial space) (((first ++ .admitted w (.write wop) :: waiting₁) ++
      .applied w (.write wop) (.ok (.write written)) :: (waiting₂ ++
        .pool (.answered w (.ok (.write written))) :: (between ++
          .admitted r (.read rop) :: reading₁))) ++
      .applied r (.read rop) (.ok body) :: reading₂) s := by
    simpa using hrun
  obtain ⟨u, v, hu, hread, -⟩ := hsplit.split_event
  have hshows := shows_after_write hpid haddr hsize hu ?_ ?_
  · cases hread with
    | apply _ _ hacts =>
        cases hacts with
        | @read _ data hlen hdata =>
            rw [hdata.unique hshows ?_]
            rw [hlen, List.length_take, List.length_drop]
            omega
  · intro r' op result hmem hr'
    refine hwrites r' op result ?_ hr'
    simp only [List.mem_append, List.mem_cons, reduceCtorEq, false_or] at hmem ⊢
    tauto
  · intro m m' hmem
    refine hothers m m' ?_
    simp only [List.mem_append, List.mem_cons, reduceCtorEq, false_or] at hmem ⊢
    tauto

/-- A write of two bytes. -/
def oneWrite : WriteOp where
  request := ⟨1, "0x10".toList, "41 42".toList⟩
  data := [0x41, 0x42]
  addr := 0x10
  decoded := by decide +kernel
  validated := by decide +kernel

/-- A read of the second one. -/
def oneRead : ReadOp where
  request := ⟨1, "0x11".toList, 1⟩
  addr := 0x11
  validated := by decide +kernel

def oneWritten : Body := .write ⟨1, addrText 0x10, 2⟩

def oneBody : Body := .read (formatRead 1 0x11 [0x42])

/-- The write is done and answered, and then the read is done. -/
theorem exists_run_oneWrite :
    ∃ s t : Api, Run Step (.initial fun _ _ ↦ none)
        ([] ++ .admitted 0 (.write oneWrite) :: ([.pool (.executed 0),
          .applied 0 (.write oneWrite) (.ok oneWritten), .returned 0 (.ok oneWritten)] ++
          .pool (.answered 0 (.ok oneWritten)) :: ([] ++ .admitted 1 (.read oneRead) ::
            [.pool (.executed 1), .applied 1 (.read oneRead) (.ok oneBody),
              .returned 1 (.ok oneBody)]))) s ∧
      Step s (.pool (.answered 1 (.ok oneBody))) t := by
  let space : Space := Space.write (fun _ _ ↦ none) 1 0x10 [0x41, 0x42]
  have hwrite : Acts (fun _ _ ↦ none) (.write oneWrite) (.ok oneWritten) space := .write
  have hshows : space.Shows 1 (0x10 + 1) (([0x41, 0x42].drop 1).take 1) :=
    Space.shows_write.part (by decide)
  have hread : Acts space (.read oneRead) (.ok oneBody) space := .read rfl hshows
  obtain ⟨s₁, s₂, h₁, h₂, hstate, hfree, hcalls⟩ := Shared.exists_run_call
    (s := .initial fun _ _ ↦ none) (r := 0) rfl (by decide) hwrite
  have hidle : s₂.pool.calls 1 = ⟨.idle, .absent⟩ := hcalls 1 (by decide)
  have hslot : 0 < s₂.pool.free := by rw [hfree]; decide
  obtain ⟨s₃, s₄, h₃, h₄, -⟩ := Shared.exists_run_call hidle hslot (hstate ▸ hread)
  exact ⟨s₃, s₄, (h₁.snoc h₂).append h₃, h₄⟩

theorem reads_what_it_wrote_oneWrite :
    oneBody = .read (formatRead 1 0x11 (([0x41, 0x42].drop 1).take 1)) := by
  obtain ⟨s, t, hrun, hanswer⟩ := exists_run_oneWrite
  exact reads_what_it_wrote (k := 1) rfl rfl (by decide) hrun hanswer
    (fun r' op result hmem hr' ↦ by simp at hmem; exact absurd hmem.1 hr')
    (fun m m' hmem ↦ by simp at hmem)

end Api

end Pwatch.Memory
