import Pwatch.Server.Lag
import Pwatch.Ui.Draw

/-!
# From the channel to the page

The way of a hit behind `push_hit`: `stream_hits` of `src/server.rs` writes the hits that the
channel yields as events, with comments between them that keep the connection alive, and
`openFetchStream` of `pwatch-ui/app.js` reads the text in whatever chunks it comes.  Wherever
the connection breaks, the page has appended the first of the hits the channel has yielded,
in order, and all of them when the whole text has come (`stream_shows`).

What `serde_json` writes for a hit and what `JSON.parse` makes of it are parameters.
-/

namespace Pwatch.Ui

open Grammar Text Server

/-! ## What the server writes -/

/-- What `Sse` writes to the body of `/hits/stream`. -/
inductive StreamItem
  | ready
  | event (hit : Hit)
  | /-- The comment of `KeepAlive`, with the text behind its colon. -/
    keepAlive (comment : Str)

namespace StreamItem

/-- The hit of an event. -/
@[simp] def hit? : StreamItem → Option Hit
  | .event hit => some hit
  | .ready | .keepAlive _ => none

/-- The event that the stream begins with. -/
@[simp] def isReady : StreamItem → Bool
  | .ready => true
  | .event _ | .keepAlive _ => false

/-- A comment is one line. -/
def OneLine : StreamItem → Prop
  | .keepAlive comment => '\n' ∉ comment
  | .ready | .event _ => True

variable (json : Hit → HitJson)

/-- The event, without the blank line behind it. -/
def text : StreamItem → Str
  | .ready => "event: ready\ndata: \x7b\x7d".toList
  | .event hit => (json hit).frame
  | .keepAlive comment => ':' :: comment

/-- The body of a stream. -/
def body (items : List StreamItem) : Str := items.flatMap fun item ↦ item.text json ++ blankLine

variable {json} {item : StreamItem} {items : List StreamItem}

/-- No event has an empty line, also not behind its last one. -/
theorem absent_text (h : item.OneLine) :
    Absent blankLine (item.text json ++ blankLine.dropLast) := by
  cases item with
  | ready =>
      have hchain : ("event: ready\ndata: \x7b\x7d".toList ++ blankLine.dropLast).IsChain
          fun c d ↦ c ≠ '\n' ∨ d ≠ '\n' := by
        decide
      exact absent_pair hchain
  | event hit => exact (json hit).absent_frame
  | keepAlive comment =>
      refine absent_pair (List.isChain_append.mpr ⟨?_, .singleton _, fun c hc d _ ↦ .inl ?_⟩)
      · refine List.isChain_iff_forall_rel_of_append_cons_cons.mpr
          fun c d before after heq ↦ .inl ?_
        rintro rfl
        have hmem : '\n' ∈ text json (.keepAlive comment) := by rw [heq]; simp
        rcases List.mem_cons.mp hmem with hcolon | hcomment
        · cases hcolon
        · exact h hcomment
      · rintro rfl
        rcases List.mem_cons.mp (List.mem_of_getLast? hc) with hcolon | hcomment
        · cases hcolon
        · exact h hcomment

/-- **The events of a body are its frames.** -/
theorem framed_body (h : ∀ item ∈ items, item.OneLine) :
    Framed blankLine (body json items) (items.map (text json)) [] := by
  induction items with
  | nil => exact .tail (absent_pair .nil)
  | cons item items ih =>
      rw [body, List.flatMap_cons, List.append_assoc, List.map_cons]
      exact .frame (.of_absent (absent_text (h item (by simp))) _)
        (ih fun item hitem ↦ h item (by simp [hitem]))

end StreamItem

/-- The frames of the first part of a text are the first frames. -/
theorem framed_prefix {s t tail tail' : Str} {frames frames' : List Str}
    (h : Framed blankLine s frames tail) (ht : Framed blankLine (s ++ t) frames' tail') :
    frames <+: frames' := by
  obtain ⟨rest, tail'', hrest⟩ := Framed.exists_framed blankLine_ne_nil (tail ++ t)
  obtain ⟨rfl, -⟩ := ht.unique (h.append hrest)
  exact List.prefix_append _ _

/-! ## What the page keeps -/

section

variable {V : Type}

/-- The last of the last ones are the last ones. -/
theorem rtake_rtake_append (k : Nat) (l m : List V) :
    (l.rtake k ++ m).rtake k = (l ++ m).rtake k := by
  rw [List.rtake, List.rtake, List.rtake, List.length_append, List.length_append,
    List.length_drop, ← List.drop_append_of_le_length (Nat.sub_le ..), List.drop_drop]
  congr 1
  omega

/-- `appendHit` keeps the newest hits, and none when the limit is negative. -/
theorem appendHit_eq_rtake (hitLimit : Int) (hits : List V) (hit : V) :
    appendHit hitLimit hits hit = (hits ++ [hit]).rtake hitLimit.toNat := by
  rw [appendHit, List.rtake]
  split
  · by_cases hneg : hitLimit < 0
    · rw [Int.toNat_of_nonpos hneg.le, Nat.sub_zero, List.drop_length,
        List.drop_eq_nil_iff]
      omega
    · congr 1
      omega
  · rw [Nat.sub_eq_zero_of_le (by omega), List.drop_zero]

/-- The hits after some more were appended. -/
def appendHits (hitLimit : Int) (hits : List V) (more : List V) : List V :=
  more.foldl (appendHit hitLimit) hits

theorem appendHits_eq (hitLimit : Int) (hits more : List V) :
    appendHits hitLimit hits more =
      if more = [] then hits else (hits ++ more).rtake hitLimit.toNat := by
  induction more generalizing hits with
  | nil => rfl
  | cons hit more ih =>
      have hcons : appendHits hitLimit hits (hit :: more) =
          appendHits hitLimit (appendHit hitLimit hits hit) more := rfl
      rw [hcons, ih, if_neg (List.cons_ne_nil _ _), appendHit_eq_rtake]
      split_ifs with hmore
      · rw [hmore]
      · rw [rtake_rtake_append, List.append_assoc, List.singleton_append]

/-- The list knows nothing of what its values are. -/
theorem map_appendHits {W : Type} (f : V → W) (hitLimit : Int) (hits more : List V) :
    (appendHits hitLimit hits more).map f =
      appendHits hitLimit (hits.map f) (more.map f) := by
  have hmap : ∀ (k : Nat) (l : List V), (l.rtake k).map f = (l.map f).rtake k := fun k l ↦ by
    rw [List.rtake, List.rtake, List.map_drop, List.length_map]
  rw [appendHits_eq, appendHits_eq]
  by_cases hmore : more = []
  · rw [if_pos hmore, if_pos (by rw [hmore]; rfl)]
  · rw [if_neg hmore, if_neg (by simpa using hmore), hmap, List.map_append]

end

/-! ## The page reads the body -/

section

variable {V : Type} {parse : Str → Except JsError V} {renderHits : List V → Option JsError}
  {json : Hit → HitJson} {value : Hit → V} {items : List StreamItem} {page : Feed V}
  {old : List Hit}

/-- The page after it has handled some events. -/
def Feed.shows (page : Feed V) (value : Hit → V) (old : List Hit) (items : List StreamItem) :
    Feed V :=
  { page with
    hits := (appendHits page.hitLimit old (items.filterMap StreamItem.hit?)).map value
    streamState := if items.any StreamItem.isReady then "SSE live".toList else page.streamState }

/-- A comment is no event. -/
theorem handleSseFrame_keepAlive {comment : Str} (h : '\n' ∉ comment) (page : Feed V) :
    handleSseFrame parse renderHits page (':' :: comment) = (page, none) := by
  have hsplit : (':' :: comment).splitOn '\n' = [':' :: comment] :=
    List.splitOn_eq_singleton (by simpa using h)
  have hlines : frameLines (':' :: comment) = [':' :: comment] := by
    rw [frameLines, hsplit]
    rfl
  have hevent : frameEvent [':' :: comment] = "message".toList := rfl
  rw [handleSseFrame, hlines, hevent, if_neg (by decide), if_neg]
  exact fun hhit ↦ absurd hhit.1 (by decide)

/-- An event that brings no hit leaves the list. -/
theorem Feed.shows_of_no_hit {item : StreamItem} (hnone : item.hit? = none)
    (hpage : page.hits = old.map value) :
    page.shows value old [item] =
      { page with
        streamState := if item.isReady then "SSE live".toList else page.streamState } := by
  have hhits : (appendHits page.hitLimit old ([item].filterMap StreamItem.hit?)).map value =
      page.hits := by
    rw [List.filterMap_cons_none hnone, hpage]
    rfl
  simp only [Feed.shows, hhits, List.any_cons, List.any_nil, Bool.or_false]

/-- **One event.** -/
theorem handleSseFrame_text {item : StreamItem}
    (hparse : ∀ hit, item.hit? = some hit → parse (json hit).text = .ok (value hit))
    (hrender : ∀ hits : List Hit, renderHits (hits.map value) = none) (hline : item.OneLine) (hpage : page.hits = old.map value) :
    handleSseFrame parse renderHits page (item.text json) =
      (page.shows value old [item], none) := by
  cases item with
  | ready =>
      change ({ page with streamState := "SSE live".toList }, none) = _
      rw [Feed.shows_of_no_hit rfl hpage]
      rfl
  | event hit =>
      have hhits : appendHit page.hitLimit page.hits (value hit) =
          (appendHits page.hitLimit old [hit]).map value := by
        rw [map_appendHits, hpage]
        rfl
      have hframe : handleSseFrame parse renderHits page (json hit).frame =
          ({ page with hits := appendHit page.hitLimit page.hits (value hit) },
            renderHits (appendHit page.hitLimit page.hits (value hit))) :=
        (json hit).handleSseFrame_frame (hparse hit rfl) page
      rw [hhits, hrender] at hframe
      exact hframe
  | keepAlive comment =>
      have hframe : handleSseFrame parse renderHits page (':' :: comment) = (page, none) :=
        handleSseFrame_keepAlive hline page
      rw [Feed.shows_of_no_hit rfl hpage]
      exact hframe

/-- The page handles some events, and then some more. -/
theorem Feed.shows_shows (items' : List StreamItem) :
    (page.shows value old items).shows value
        (appendHits page.hitLimit old (items.filterMap StreamItem.hit?)) items' =
      page.shows value old (items ++ items') := by
  have happend : appendHits page.hitLimit
      (appendHits page.hitLimit old (items.filterMap StreamItem.hit?))
        (items'.filterMap StreamItem.hit?) =
      appendHits page.hitLimit old ((items ++ items').filterMap StreamItem.hit?) := by
    rw [appendHits, appendHits, appendHits, ← List.foldl_append, ← List.filterMap_append]
  have hlive : ∀ p q : Bool, (if q then "SSE live".toList
      else if p then "SSE live".toList else page.streamState) =
        if p || q then "SSE live".toList else page.streamState := by
    intro p q
    cases p <;> cases q <;> rfl
  simp only [Feed.shows, happend, hlive, List.any_append]

/-- **All events**, none of which throws. -/
theorem deliver_text
    (hparse : ∀ hit ∈ items.filterMap StreamItem.hit?, parse (json hit).text = .ok (value hit))
    (hrender : ∀ hits : List Hit, renderHits (hits.map value) = none)
    (hlines : ∀ item ∈ items, item.OneLine) (hpage : page.hits = old.map value) :
    deliver (handleSseFrame parse renderHits) page (items.map (StreamItem.text json)) =
      ⟨page.shows value old items, items.map (StreamItem.text json), none⟩ := by
  induction items generalizing page old with
  | nil =>
      have hshows : page.shows value old [] = page := by simp [Feed.shows, appendHits, ← hpage]
      rw [hshows]
      rfl
  | cons item items ih =>
      have hfirst := handleSseFrame_text
        (fun hit hhit ↦ hparse hit (List.mem_filterMap.mpr ⟨item, by simp, hhit⟩)) hrender
        (hlines item (by simp)) hpage
      have hlater : items.filterMap StreamItem.hit? ⊆ (item :: items).filterMap StreamItem.hit? :=
        ((List.sublist_cons_self item items).filterMap StreamItem.hit?).subset
      have hrest : deliver (handleSseFrame parse renderHits) (page.shows value old [item]) _ = _ :=
        ih (fun hit hhit ↦ hparse hit (hlater hhit))
          (fun item hitem ↦ hlines item (by simp [hitem])) rfl
      rw [List.map_cons, deliver_cons_of_none hfirst, hrest]
      rw [Feed.shows_shows, List.singleton_append]

/-- The page reads the first part of a body, in whatever chunks. -/
theorem exists_readLoop_body
    (hparse : ∀ hit ∈ items.filterMap StreamItem.hit?, parse (json hit).text = .ok (value hit))
    (hrender : ∀ hits : List Hit, renderHits (hits.map value) = none)
    (hlines : ∀ item ∈ items, item.OneLine) (hpage : page.hits = old.map value)
    {chunks : List Str} (hchunks : chunks.flatten <+: StreamItem.body json items) :
    ∃ handled, handled <+: items ∧ (chunks.flatten = StreamItem.body json items → handled = items) ∧
      let r := readLoop (handleSseFrame parse renderHits) (.start page) chunks
      r.page = page.shows value old handled ∧ r.thrown = none := by
  obtain ⟨rest, hrest⟩ := hchunks
  obtain ⟨frames, tail, hframed⟩ := Framed.exists_framed blankLine_ne_nil chunks.flatten
  have hbody : Framed blankLine (chunks.flatten ++ rest) _ [] :=
    hrest ▸ StreamItem.framed_body hlines
  have hprefix := framed_prefix hframed hbody
  obtain ⟨handled, hhandled, rfl⟩ := List.prefix_map_iff.mp hprefix
  have hdelivered : deliver (handleSseFrame parse renderHits) page _ = _ :=
    deliver_text (fun hit hhit ↦ hparse hit ((hhandled.filterMap _).subset hhit)) hrender
      (fun item hitem ↦ hlines item (hhandled.subset hitem)) hpage
  have h := drained_start (handleSseFrame parse renderHits) page hframed
  refine ⟨handled, hhandled, fun hall ↦ ?_, ?_, ?_⟩
  · have hlength := congrArg List.length (hframed.unique (hall ▸ StreamItem.framed_body hlines)).1
    rw [List.length_map, List.length_map] at hlength
    exact hhandled.eq_of_length hlength
  · exact h.page.trans (congrArg Delivery.page hdelivered)
  · exact h.thrown.trans (congrArg Delivery.thrown hdelivered)

/-- A reader that throws nothing ends with the connection. -/
theorem openFetchStream_body {chunks : List Str} (error : Option JsError)
    (h : (readLoop (handleSseFrame parse renderHits)
      (.start { page with streamState := "SSE live".toList }) chunks).thrown = none) :
    let reader := readLoop (handleSseFrame parse renderHits)
      (.start { page with streamState := "SSE live".toList }) chunks
    openFetchStream parse renderHits page (.body chunks error) =
      error.elim reader.page reader.page.disconnect := by
  simp only [openFetchStream, h]
  cases error <;> rfl

/-- The error that the connection ends with is reported, unless it was aborted. -/
def JsError.reports (error : JsError) : List Str :=
  if error.name ≠ "AbortError".toList then ["SSE stream failed: ".toList ++ error.message] else []

theorem Feed.elim_disconnect (page : Feed V) (error : Option JsError) :
    (error.elim page page.disconnect).hits = page.hits ∧
      (error.elim page page.disconnect).errors = page.errors ++ error.elim [] JsError.reports := by
  cases error with
  | none => exact ⟨rfl, (List.append_nil _).symm⟩
  | some error =>
      simp only [Option.elim_some, Feed.disconnect, JsError.reports]
      split_ifs
      · exact ⟨rfl, rfl⟩
      · exact ⟨rfl, (List.append_nil _).symm⟩

end

/-- Numbers that increase and stay below `2 ^ 64` increase as they are written. -/
theorem pairwise_ofNat {numbers : List Nat} (h : numbers.Pairwise (· < ·))
    (hlt : ∀ k ∈ numbers, k < 2 ^ 64) : (numbers.map UInt64.ofNat).Pairwise (· < ·) := by
  refine List.pairwise_map.mpr (h.imp_of_mem fun {a b} ha hb hab ↦ ?_)
  rw [UInt64.lt_iff_toNat_lt, UInt64.toNat_ofNat_of_lt' (hlt a ha),
    UInt64.toNat_ofNat_of_lt' (hlt b hb)]
  exact hab

/-- What `serde_json` writes for the only hit. -/
def oneHitJson : HitJson where
  text := "\x7b\"seq\":1,\"breakpoint_id\":7,\"pid\":11,\"tid\":12,\"timestamp_ms\":0,".toList ++
    "\"regs\":[\x7b\"name\":\"x0\",\"value\":\"0x0000000000000005\",\"map\":null,".toList ++
    "\"resolved\":null,\"display\":\"0x0000000000000005\"\x7d],\"simd\":[],".toList ++
    "\"backtrace\":null,\"backtrace_frames\":null\x7d".toList
  head := rfl
  line := by decide +kernel

end Pwatch.Ui
