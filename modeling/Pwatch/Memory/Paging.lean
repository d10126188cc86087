import Pwatch.Memory.Handlers
import Pwatch.Memory.HexView

/-!
# Paging

A client of the hex view asks for the next page at the `next_addr` of the last one.  A
`Page` is a read that was answered, with what the checks and the driver promise about it; the
text of an address that is printed is the text of the same address when it is read, so each
page begins where the one before it ends.
-/

namespace Pwatch.Memory

open Text Blocking

/-- A read that was answered. -/
structure Page where
  request : ReadRequest
  addr : UInt64
  data : List UInt8
  /-- `validate` has accepted the request. -/
  valid : validate request.pid request.addr request.size = .ok addr
  /-- The driver has filled the bytes that were asked for. -/
  filled : data.length = request.size

namespace Page

/-- What the read was answered with. -/
def body (page : Page) : ReadResponse := formatRead page.request.pid page.addr page.data

/-- The addresses of the page. -/
def range (page : Page) : List Nat := List.range' page.addr.toNat page.request.size

variable (page : Page)

theorem isValid : Valid page.request.pid page.request.addr page.request.size page.addr :=
  validate_eq_ok_iff.mp page.valid

theorem length_data_le : page.data.length ≤ 4096 := page.filled ▸ page.isValid.size_le

/-- Every read that is answered is a page. -/
theorem exists_of_answer {device : Device} {fate : Fate} {request : ReadRequest}
    {body : ReadResponse} (h : (readMemory device fate (.ok request)).2 = .ok body) :
    ∃ page : Page, page.request = request ∧ page.body = body := by
  obtain ⟨addr, data, hvalid, hlen, rfl⟩ := (readSafe device fate request).body_valid body h
  exact ⟨⟨request, addr, data, validate_eq_ok_iff.mpr hvalid, hlen⟩, rfl, rfl⟩

/-- There is no next page exactly when this one ends at the top of the address space. -/
theorem nextAddr_eq_none_iff :
    page.body.nextAddr = none ↔ page.addr.toNat + page.request.size - 1 = 2 ^ 64 - 1 := by
  have hfits := page.isValid.fits
  have hpos := page.isValid.size_pos
  rw [body, nextAddr_eq_none page.length_data_le, page.filled]
  omega

/-- Where the next page begins. -/
theorem denotes_nextAddr {text : Str} (h : page.body.nextAddr = some text) :
    ∃ value, Denotes text value ∧ value.toNat = page.addr.toNat + page.request.size := by
  have hlt : page.addr.toNat + page.data.length < 2 ^ 64 := by
    by_contra hge
    rw [body, (nextAddr_eq_none page.length_data_le).mpr (Nat.not_lt.mp hge)] at h
    cases h
  rw [body, nextAddr_eq_some hlt] at h
  obtain rfl := Option.some.inj h
  obtain ⟨value, hdenotes, hvalue⟩ := denotes_addrText_add hlt
  exact ⟨value, hdenotes, page.filled ▸ hvalue⟩

end Page

/-! ## The next request -/

/-- A text denotes one address. -/
theorem Denotes.unique {addr : Str} {value value' : UInt64} (h : Denotes addr value)
    (h' : Denotes addr value') : value = value' :=
  UInt64.toNat_inj.mp ((denotes_iff.mp h).2.2.2.symm.trans (denotes_iff.mp h').2.2.2)

/-- What `validate` says of a text that denotes an address. -/
theorem validate_of_denotes {pid : UInt32} {addr : Str} {size : Nat} {value : UInt64}
    (h : Denotes addr value) (hpid : 1 ≤ pid.toNat ∧ pid.toNat ≤ 2 ^ 31 - 1)
    (hsize : 1 ≤ size ∧ size ≤ 4096) :
    validate pid addr size = if value.toNat + size - 1 < 2 ^ 64 then .ok value
      else .error "address range overflows u64".toList := by
  split <;> rename_i hfits
  · exact validate_eq_ok_iff.mpr ⟨hpid.1, hpid.2, hsize.1, hsize.2, h, hfits⟩
  · obtain ⟨hne, hle, hnum, hvalue⟩ := denotes_iff.mp h
    have hsize' : ¬ ¬ (1 ≤ size ∧ size ≤ maxBytes) := not_not.mpr hsize
    have hparsed : fromStrRadix 16 (addrDigits addr) = .ok value := by
      rw [fromStrRadix_of_checked hne hle hnum, hvalue, UInt64.ofNat_toNat]
    unfold validate
    rw [if_neg ((pid_ok_iff pid).mpr hpid), if_neg hsize']
    dsimp only
    rw [if_neg ((digits_ok_iff _).mpr ⟨hne, hle, hnum⟩), hparsed]
    dsimp only
    rw [(range_ok_iff hsize.1 hsize.2 value).mpr hfits]

/-! ## Chains of pages -/

/-- The request for the next page has the text the page before it was answered with. -/
def Follows (page next : Page) : Prop := page.body.nextAddr = some next.request.addr

theorem Follows.toNat_addr {page next : Page} (h : Follows page next) :
    next.addr.toNat = page.addr.toNat + page.request.size := by
  obtain ⟨value, hdenotes, hvalue⟩ := page.denotes_nextAddr h
  rw [next.isValid.denotes.unique hdenotes, hvalue]

/-- The pages of a chain tile an interval that ends inside the address space. -/
theorem flatMap_range_of_isChain {first : Page} {pages : List Page}
    (h : (first :: pages).IsChain Follows) :
    (first :: pages).flatMap Page.range = List.range' first.addr.toNat
        ((first :: pages).map fun page ↦ page.request.size).sum ∧
      first.addr.toNat + ((first :: pages).map fun page ↦ page.request.size).sum ≤ 2 ^ 64 := by
  induction pages generalizing first with
  | nil => simpa [Page.range] using first.isValid.fits
  | cons next pages ih =>
      obtain ⟨hfollows, hchain⟩ := List.isChain_cons_cons.mp h
      obtain ⟨htile, hfits⟩ := ih hchain
      rw [hfollows.toNat_addr] at htile hfits
      constructor
      · rw [List.flatMap_cons, htile, Page.range, List.range'_append_1]
        rfl
      · rw [List.map_cons, List.sum_cons, ← Nat.add_assoc]
        exact hfits

/-- **Paging.**  Along every chain of pages the addresses read are consecutive; there is no
next page exactly at the top of the address space; and the next page is refused for its
address only when its own range does not fit. -/
theorem paging {pages : List Page} (h : pages.IsChain Follows) :
    pages.IsChain (fun page next ↦ next.addr.toNat = page.addr.toNat + page.request.size) ∧
    (∀ first ∈ pages.head?, pages.flatMap Page.range = List.range' first.addr.toNat
      (pages.map fun page ↦ page.request.size).sum) ∧
    (∀ page ∈ pages, page.body.nextAddr = none ↔
      page.addr.toNat + page.request.size - 1 = 2 ^ 64 - 1) ∧
    (∀ page ∈ pages, ∀ text, page.body.nextAddr = some text → ∃ value : UInt64,
      value.toNat = page.addr.toNat + page.request.size ∧
      ∀ pid : UInt32, 1 ≤ pid.toNat ∧ pid.toNat ≤ 2 ^ 31 - 1 → ∀ size, 1 ≤ size ∧ size ≤ 4096 →
        validate pid text size = if value.toNat + size - 1 ≤ 2 ^ 64 - 1 then .ok value
          else .error "address range overflows u64".toList) ∧
    ∀ device fate request body, (readMemory device fate (.ok request)).2 = .ok body →
      ∃ page : Page, page.request = request ∧ page.body = body := by
  refine ⟨h.imp fun _ _ ↦ Follows.toNat_addr, ?_, fun page _ ↦ page.nextAddr_eq_none_iff, ?_,
    fun _ _ _ _ ↦ Page.exists_of_answer⟩
  · intro first hfirst
    cases pages with
    | nil => cases hfirst
    | cons first' pages =>
        obtain rfl := Option.some.inj hfirst
        exact (flatMap_range_of_isChain h).1
  · intro page _ text htext
    obtain ⟨value, hdenotes, hvalue⟩ := page.denotes_nextAddr htext
    refine ⟨value, hvalue, fun pid hpid size hsize ↦ ?_⟩
    rw [validate_of_denotes hdenotes hpid hsize]
    congr 1
    rw [eq_iff_iff]
    omega

/-- Two pages that end at the top of the address space. -/
theorem paging_top :
    ∃ first last : Page, [first, last].IsChain Follows ∧
      [first, last].flatMap Page.range = List.range' 0xfffffffffffffffd 3 := by
  let first : Page :=
    { request := ⟨1, "0xfffffffffffffffd".toList, 1⟩
      addr := 0xfffffffffffffffd
      data := [65]
      valid := by decide +kernel
      filled := rfl }
  let last : Page :=
    { request := ⟨1, "0xfffffffffffffffe".toList, 2⟩
      addr := 0xfffffffffffffffe
      data := [66, 67]
      valid := by decide +kernel
      filled := rfl }
  have hfollows : first.body.nextAddr = some last.request.addr := by decide +kernel
  have hchain : [first, last].IsChain Follows :=
    .cons_cons hfollows (.singleton last)
  obtain ⟨-, htile, -⟩ := paging hchain
  exact ⟨first, last, hchain, htile first rfl⟩

end Pwatch.Memory
