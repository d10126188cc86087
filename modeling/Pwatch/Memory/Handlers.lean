import Pwatch.Blocking
import Pwatch.Memory.Response

/-!
# The memory handlers

`read_memory` and `write_memory` with the calls of the driver they make.  What the
extractors and the driver return is free, and so is what becomes of a job in the pool.
A read fills a buffer of the size it is asked for, so it returns a `Vector` of that
size.
-/

namespace Pwatch.Memory

open Text Blocking

/-- A call of the driver. -/
inductive DriverCall
  | /-- `Driver::open`. -/
    opened
  | readMemory (pid : Int32) (addr : UInt64) (size : Nat)
  | writeMemory (pid : Int32) (addr : UInt64) (data : List UInt8)
deriving DecidableEq, Repr

/-- What the driver returns. -/
structure Device where
  opened : Except Str Unit
  readMemory : (pid : Int32) → (addr : UInt64) → (size : Nat) → Except Str (Vector UInt8 size)
  writeMemory : Int32 → UInt64 → List UInt8 → Except Str Unit

/-- An answer. -/
inductive Response (β : Type)
  | /-- 200, not to be stored. -/
    ok (body : β)
  | /-- `error_response`. -/
    error (status : Nat) (message : Str)
deriving DecidableEq, Repr

/-- The answer for what `blocking::run` returns. -/
def answer {β : Type} : Except Failure β → Response β
  | .ok body => .ok body
  | .error failure => .error 502 failure.message

variable (device : Device) (fate : Fate)

/-- The job of `read_memory`. -/
def readJob (request : ReadRequest) (addr : UInt64) : Job DriverCall ReadResponse :=
  match device.opened with
  | .error message => ⟨[.opened], .error message⟩
  | .ok () =>
      { calls := [.opened, .readMemory request.pid.toInt32 addr request.size]
        result := (device.readMemory request.pid.toInt32 addr request.size).map fun data ↦
          formatRead request.pid addr data.toList }

/-- `read_memory`: the calls it makes, and its answer. -/
def readMemory (query : Except Str ReadRequest) : List DriverCall × Response ReadResponse :=
  match query with
  | .error text => ([], .error 400 text)
  | .ok request =>
      match validate request.pid request.addr request.size with
      | .error message => ([], .error 400 message)
      | .ok addr => (run fate (readJob device request addr)).map id answer

/-- The job of `write_memory`. -/
def writeJob (request : WriteRequest) (data : List UInt8) (addr : UInt64) :
    Job DriverCall WriteResponse :=
  match device.opened with
  | .error message => ⟨[.opened], .error message⟩
  | .ok () =>
      { calls := [.opened, .writeMemory request.pid.toInt32 addr data]
        result := (device.writeMemory request.pid.toInt32 addr data).map fun _ ↦
          { pid := request.pid, addr := addrText addr, written := data.length } }

/-- `write_memory`.  A body that is not extracted has a status of its own. -/
def writeMemory (body : Except (Nat × Str) WriteRequest) :
    List DriverCall × Response WriteResponse :=
  match body with
  | .error (status, text) => ([], .error status text)
  | .ok request =>
      match decodeHex request.data with
      | .error message => ([], .error 400 message)
      | .ok data =>
          match validate request.pid request.addr data.length with
          | .error message => ([], .error 400 message)
          | .ok addr => (run fate (writeJob device request data addr)).map id answer

/-! ## Calls of the driver -/

theorem Valid.toInt_pid {pid : UInt32} {addr : Str} {size : Nat} {value : UInt64}
    (h : Valid pid addr size value) : pid.toInt32.toInt = pid.toNat :=
  toInt_toInt32 (Nat.lt_of_le_of_lt h.pid_le (by decide))

theorem Valid.fits {pid : UInt32} {addr : Str} {size : Nat} {value : UInt64}
    (h : Valid pid addr size value) : value.toNat + size ≤ 2 ^ 64 := by
  have hpos := h.size_pos
  have hlt := h.no_wrap
  omega

variable {device fate}

theorem mem_calls_readJob {request : ReadRequest} {addr : UInt64} {call : DriverCall}
    (h : call ∈ (readJob device request addr).calls) :
    call = .opened ∨ call = .readMemory request.pid.toInt32 addr request.size := by
  unfold readJob at h
  split at h
  · exact .inl (List.mem_singleton.mp h)
  · simpa using h

theorem mem_calls_writeJob {request : WriteRequest} {data : List UInt8} {addr : UInt64}
    {call : DriverCall} (h : call ∈ (writeJob device request data addr).calls) :
    call = .opened ∨ call = .writeMemory request.pid.toInt32 addr data := by
  unfold writeJob at h
  split at h
  · exact .inl (List.mem_singleton.mp h)
  · simpa using h

/-- What `read_memory` does with a request that was extracted. -/
theorem readMemory_cases (device : Device) (fate : Fate) (request : ReadRequest) :
    (∃ addr, Valid request.pid request.addr request.size addr ∧
      readMemory device fate (.ok request) =
        (run fate (readJob device request addr)).map id answer) ∨
    ((¬ ∃ addr, Valid request.pid request.addr request.size addr) ∧
      ∃ message, readMemory device fate (.ok request) = ([], .error 400 message)) := by
  simp only [readMemory]
  cases hv : validate request.pid request.addr request.size with
  | ok addr => exact .inl ⟨addr, validate_eq_ok_iff.mp hv, rfl⟩
  | error message =>
      refine .inr ⟨?_, message, rfl⟩
      rintro ⟨addr, haddr⟩
      rw [validate_eq_ok_iff.mpr haddr] at hv
      cases hv

/-- What `write_memory` does with a request that was extracted. -/
theorem writeMemory_cases (device : Device) (fate : Fate) (request : WriteRequest) :
    (∃ data addr, decodeHex request.data = .ok data ∧
      Valid request.pid request.addr data.length addr ∧
        writeMemory device fate (.ok request) =
          (run fate (writeJob device request data addr)).map id answer) ∨
    ((¬ ∃ data addr, decodeHex request.data = .ok data ∧
      Valid request.pid request.addr data.length addr) ∧
        ∃ message, writeMemory device fate (.ok request) = ([], .error 400 message)) := by
  simp only [writeMemory]
  cases hd : decodeHex request.data with
  | error message =>
      refine .inr ⟨?_, message, rfl⟩
      rintro ⟨data, addr, hdata, -⟩
      cases hdata
  | ok data =>
      dsimp only
      cases hv : validate request.pid request.addr data.length with
      | ok addr => exact .inl ⟨data, addr, rfl, validate_eq_ok_iff.mp hv, rfl⟩
      | error message =>
          refine .inr ⟨?_, message, rfl⟩
          rintro ⟨data', addr, hdata, haddr⟩
          obtain rfl := Except.ok.inj hdata
          rw [validate_eq_ok_iff.mpr haddr] at hv
          cases hv

/-! ## The handlers and the driver -/

/-- What a read request may lead to. -/
structure ReadSafe (request : ReadRequest) (outcome : List DriverCall × Response ReadResponse) :
    Prop where
  /-- The driver is asked for a valid range only, with the numbers of the request. -/
  calls_valid : ∀ call ∈ outcome.1, ∃ addr, Valid request.pid request.addr request.size addr ∧
    addr.toNat + request.size ≤ 2 ^ 64 ∧ request.pid.toInt32.toInt = request.pid.toNat ∧
      (call = .opened ∨ call = .readMemory request.pid.toInt32 addr request.size)
  /-- An answer shows bytes of a valid range. -/
  body_valid : ∀ body, outcome.2 = .ok body →
    ∃ addr data, Valid request.pid request.addr request.size addr ∧ data.length = request.size ∧
      body = formatRead request.pid addr data
  /-- Any other request is answered 400 without the driver. -/
  refused : (¬ ∃ addr, Valid request.pid request.addr request.size addr) →
    outcome.1 = [] ∧ ∃ message, outcome.2 = .error 400 message

/-- What a write request may lead to. -/
structure WriteSafe (request : WriteRequest) (outcome : List DriverCall × Response WriteResponse) :
    Prop where
  /-- The driver is asked for a valid range only, with the decoded bytes. -/
  calls_valid : ∀ call ∈ outcome.1, ∃ data addr, decodeHex request.data = .ok data ∧
    Valid request.pid request.addr data.length addr ∧ addr.toNat + data.length ≤ 2 ^ 64 ∧
      request.pid.toInt32.toInt = request.pid.toNat ∧
        (call = .opened ∨ call = .writeMemory request.pid.toInt32 addr data)
  /-- Any other request is answered 400 without the driver. -/
  refused : (¬ ∃ data addr, decodeHex request.data = .ok data ∧
      Valid request.pid request.addr data.length addr) →
    outcome.1 = [] ∧ ∃ message, outcome.2 = .error 400 message

theorem answer_eq_ok {β : Type} {result : Except Failure β} {body : β}
    (h : answer result = .ok body) : result = .ok body := by
  cases result with
  | error failure => cases h
  | ok body' =>
      cases h
      rfl

/-- The body of a read is made of a buffer of the size that was asked for. -/
theorem result_readJob {request : ReadRequest} {addr : UInt64} {body : ReadResponse}
    (h : (readJob device request addr).result = .ok body) :
    ∃ data, data.length = request.size ∧ body = formatRead request.pid addr data := by
  unfold readJob at h
  split at h
  · cases h
  · simp only [] at h
    cases hr : device.readMemory request.pid.toInt32 addr request.size with
    | error message => simp [hr, Except.map] at h
    | ok buffer =>
        rw [hr] at h
        exact ⟨buffer.toList, buffer.length_toList, (Except.ok.inj h).symm⟩

theorem readSafe (device : Device) (fate : Fate) (request : ReadRequest) :
    ReadSafe request (readMemory device fate (.ok request)) := by
  rcases readMemory_cases device fate request with ⟨addr, haddr, hrun⟩ | ⟨hnone, message, hrefused⟩
  · rw [hrun]
    refine ⟨fun call hcall ↦ ?_, fun body hbody ↦ ?_, fun hno ↦ absurd ⟨addr, haddr⟩ hno⟩
    · have hjob := mem_calls_readJob (run_calls_subset fate _ hcall)
      exact ⟨addr, haddr, haddr.fits, haddr.toInt_pid, hjob⟩
    · obtain ⟨data, hlen, hdata⟩ := result_readJob (result_of_run_eq_ok (answer_eq_ok hbody))
      exact ⟨addr, data, haddr, hlen, hdata⟩
  · rw [hrefused]
    exact ⟨fun _ hcall ↦ absurd hcall List.not_mem_nil, nofun, fun _ ↦ ⟨rfl, message, rfl⟩⟩

theorem writeSafe (device : Device) (fate : Fate) (request : WriteRequest) :
    WriteSafe request (writeMemory device fate (.ok request)) := by
  rcases writeMemory_cases device fate request with
    ⟨data, addr, hdata, haddr, hrun⟩ | ⟨hnone, message, hrefused⟩
  · rw [hrun]
    refine ⟨fun call hcall ↦ ?_, fun hno ↦ absurd ⟨data, addr, hdata, haddr⟩ hno⟩
    have hjob := mem_calls_writeJob (run_calls_subset fate _ hcall)
    exact ⟨data, addr, hdata, haddr, haddr.fits, haddr.toInt_pid, hjob⟩
  · rw [hrefused]
    exact ⟨fun _ hcall ↦ absurd hcall List.not_mem_nil, fun _ ↦ ⟨rfl, message, rfl⟩⟩

/-- **Memory requests.**  `validate` accepts the valid requests and no others, never for
want of a digit parser; the driver is asked for what is valid and for nothing else; and
the rows of an answer have addresses that do not overflow. -/
theorem memory_safe (device : Device) (fate : Fate) :
    (∀ pid addr size value, validate pid addr size = .ok value ↔ Valid pid addr size value) ∧
    (∀ pid addr size, ∀ kind : IntErrorKind, validate pid addr size ≠ .error kind.message) ∧
    (∀ request, ReadSafe request (readMemory device fate (.ok request))) ∧
    (∀ request, WriteSafe request (writeMemory device fate (.ok request))) ∧
    ∀ pid addr size value data, Valid pid addr size value → data.length = size →
      ∀ i, ∀ hi : i < (formatRead pid value data).rows.length, value.toNat + i * 16 < 2 ^ 64 ∧
        (formatRead pid value data).rows[i].addr =
          "0x".toList ++ lowerHex16 (value.toNat + i * 16) := by
  refine ⟨fun _ _ _ _ ↦ validate_eq_ok_iff, fun _ _ _ ↦ validate_ne_parse_error,
    readSafe device fate, writeSafe device fate, fun pid addr size value data hvalid hlen i hi ↦ ?_⟩
  exact formatRead_row (hlen ▸ hvalid.fits) hi

end Pwatch.Memory
