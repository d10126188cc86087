import Pwatch.Grammar.Framing
import Pwatch.Text.Basic
import Pwatch.Ui.Page

/-!
# The frames of a stream

`openFetchStream` and `handleSseFrame` of `pwatch-ui/app.js`.  The text of the stream comes in
chunks, and is cut into frames at its blank lines.  The function that takes a frame may throw,
and then the loop is left.

The values of JSON are of any type.  What `JSON.parse` makes of a text is a parameter, and so is
what `renderHits` throws when it draws a list: a stream may bring values that are no hits.
`Pwatch.Ui.Draw` has the values and the drawing of the page.
-/

namespace Pwatch.Ui

open Grammar Text

/-! ## The page -/

/-- An `Error`. -/
structure JsError where
  name : Str
  message : Str
deriving DecidableEq, Repr

/-- What a stream changes on the page. -/
structure Feed (V : Type) where
  /-- `els.streamState.textContent` -/
  streamState : Str
  /-- `Number(els.hitLimit.value || 100)` -/
  hitLimit : Int
  hits : List V
  /-- The texts `showError` was called with. -/
  errors : List Str
deriving DecidableEq, Repr

/-- The whitespace of JavaScript: it has U+FEFF, and not U+0085. -/
def jsWhitespace (c : Char) : Bool :=
  (isWhitespace c && c.toNat != 0x85) || c.toNat == 0xFEFF

/-- `String.prototype.trimStart`. -/
def jsTrimStart (s : Str) : Str := s.dropWhile jsWhitespace

/-- `String.prototype.trim`. -/
def jsTrim (s : Str) : Str := (jsTrimStart s).rdropWhile jsWhitespace

section

variable {V : Type} (parse : Str → Except JsError V) (renderHits : List V → Option JsError)

/-- `appendHit` with its drawing. -/
def Feed.appendHit (page : Feed V) (hit : V) : Feed V × Option JsError :=
  let hits := Ui.appendHit page.hitLimit page.hits hit
  ({ page with hits }, renderHits hits)

/-! ## One frame -/

/-- `frame.split(/\r?\n/)`. -/
def frameLines (frame : Str) : List Str :=
  let pieces := frame.splitOn '\n'
  pieces.dropLast.map stripCarriageReturn ++ pieces.getLast?.toList

/-- The name of the event: an empty one counts as none. -/
def frameEvent (lines : List Str) : Str :=
  let event := (lines.find? fun line ↦ "event:".toList.isPrefixOf line).map fun line ↦
    jsTrim (line.drop "event:".length)
  match event with
  | none | some [] => "message".toList
  | some event => event

def frameData (lines : List Str) : Str :=
  ['\n'].intercalate ((lines.filter fun line ↦ "data:".toList.isPrefixOf line).map fun line ↦
    jsTrimStart (line.drop "data:".length))

/-- `handleSseFrame`: the page after it, and what it throws. -/
def handleSseFrame (page : Feed V) (frame : Str) : Feed V × Option JsError :=
  let lines := frameLines frame
  let event := frameEvent lines
  let data := frameData lines
  if event = "ready".toList then
    ({ page with streamState := "SSE live".toList }, none)
  else if event = "hit".toList ∧ data ≠ [] then
    match parse data with
    | .ok hit => page.appendHit renderHits hit
    | .error error => (page, some error)
  else (page, none)

end

/-! ## The loop -/

/-- `"\n\n"`. -/
def blankLine : Str := ['\n', '\n']

theorem blankLine_ne_nil : blankLine ≠ [] := List.cons_ne_nil _ _

/-- The loop of `openFetchStream` between two chunks. -/
structure FrameReader (σ : Type) where
  page : σ
  buffer : Str
  /-- The frames that were handed over. -/
  handed : List Str
  /-- What was thrown.  Then the loop has been left. -/
  thrown : Option JsError

section

variable {σ : Type} (handle : σ → Str → σ × Option JsError)

def FrameReader.start (page : σ) : FrameReader σ where
  page
  buffer := []
  handed := []
  thrown := none

/-- The inner loop. -/
def drain (r : FrameReader σ) : FrameReader σ :=
  match _h : indexOf blankLine r.buffer with
  | none => r
  | some idx =>
      let frame := r.buffer.take idx
      let buffer := r.buffer.drop (idx + 2)
      match handle r.page frame with
      | (page, none) => drain ⟨page, buffer, r.handed ++ [frame], none⟩
      | (page, some error) => ⟨page, buffer, r.handed ++ [frame], some error⟩
termination_by r.buffer.length
decreasing_by
  have heq := congrArg List.length (indexOf_eq_some _h).eq
  rw [List.length_append, List.length_append, show blankLine.length = 2 from rfl] at heq
  omega

/-- One turn of the outer loop. -/
def readChunk (r : FrameReader σ) (chunk : Str) : FrameReader σ :=
  match r.thrown with
  | some _ => r
  | none => drain handle { r with buffer := r.buffer ++ chunk }

/-- The outer loop. -/
def readLoop (r : FrameReader σ) (chunks : List Str) : FrameReader σ :=
  chunks.foldl (readChunk handle) r

end

/-- What `fetch` comes to. -/
inductive Answer
  | rejected (error : JsError)
  | refused (status : Nat) (statusText : Str)
  | /-- The chunks of the body, decoded, and the error that `reader.read` ends with, if any. -/
    body (chunks : List Str) (error : Option JsError)

/-- The `catch` of `openFetchStream`. -/
def Feed.disconnect {V : Type} (page : Feed V) (error : JsError) : Feed V :=
  if error.name ≠ "AbortError".toList then
    { page with
      streamState := "SSE disconnected".toList
      errors := page.errors ++ ["SSE stream failed: ".toList ++ error.message] }
  else page

/-- `openFetchStream`. -/
def openFetchStream {V : Type} (parse : Str → Except JsError V)
    (renderHits : List V → Option JsError) (page : Feed V) (answer : Answer) : Feed V :=
  let page := { page with streamState := "SSE fetch".toList }
  match answer with
  | .rejected error => page.disconnect error
  | .refused status statusText =>
      page.disconnect ⟨"Error".toList, Nat.toDigits 10 status ++ ' ' :: statusText⟩
  | .body chunks error =>
      let page := { page with streamState := "SSE live".toList }
      let r := readLoop (handleSseFrame parse renderHits) (.start page) chunks
      match r.thrown <|> error with
      | some error => r.page.disconnect error
      | none => r.page

/-! ## What the frames are -/

/-- What comes of frames that are handed over. -/
structure Delivery (σ : Type) where
  page : σ
  handed : List Str
  thrown : Option JsError

section

variable {σ : Type} (handle : σ → Str → σ × Option JsError)

/-- The frames are handed over in order, up to the first that throws. -/
def deliver (page : σ) : List Str → Delivery σ
  | [] => ⟨page, [], none⟩
  | frame :: frames =>
      match handle page frame with
      | (page, none) =>
          let rest := deliver page frames
          { rest with handed := frame :: rest.handed }
      | (page, some error) => ⟨page, [frame], some error⟩

variable {handle} {page : σ} {frames frames' : List Str} {r r' : FrameReader σ}
  {f rest tail tail' : Str}

theorem deliver_cons_of_none {page' : σ} (h : handle page f = (page', none)) :
    deliver handle page (f :: frames) =
      { deliver handle page' frames with handed := f :: (deliver handle page' frames).handed } := by
  rw [deliver, h]

theorem deliver_cons_of_some {page' : σ} {error : JsError}
    (h : handle page f = (page', some error)) :
    deliver handle page (f :: frames) = ⟨page', [f], some error⟩ := by
  rw [deliver, h]

/-- All frames are handed over when none throws. -/
theorem deliver_handed (h : (deliver handle page frames).thrown = none) :
    (deliver handle page frames).handed = frames := by
  induction frames generalizing page with
  | nil => rfl
  | cons f frames ih =>
      rcases hf : handle page f with ⟨page', _ | error⟩
      · rw [deliver_cons_of_none hf] at h ⊢
        exact congrArg (f :: ·) (ih h)
      · rw [deliver_cons_of_some hf] at h
        cases h

/-- The frames that are handed over are the first ones. -/
theorem deliver_handed_prefix : (deliver handle page frames).handed <+: frames := by
  induction frames generalizing page with
  | nil => exact List.nil_prefix
  | cons f frames ih =>
      rcases hf : handle page f with ⟨page', _ | error⟩
      · rw [deliver_cons_of_none hf]
        exact List.cons_prefix_cons.mpr ⟨rfl, ih⟩
      · rw [deliver_cons_of_some hf]
        exact ⟨frames, rfl⟩

/-- Frames that throw nothing, and frames behind them. -/
theorem deliver_append (h : (deliver handle page frames).thrown = none) :
    deliver handle page (frames ++ frames') =
      let rest := deliver handle (deliver handle page frames).page frames'
      { rest with handed := frames ++ rest.handed } := by
  induction frames generalizing page with
  | nil => rfl
  | cons f frames ih =>
      rcases hf : handle page f with ⟨page', _ | error⟩
      · rw [deliver_cons_of_none hf] at h
        rw [List.cons_append, deliver_cons_of_none hf, deliver_cons_of_none hf, ih h]
        rfl
      · rw [deliver_cons_of_some hf] at h
        cases h

/-- Frames behind one that throws do not matter. -/
theorem deliver_append_of_thrown (h : (deliver handle page frames).thrown ≠ none) :
    deliver handle page (frames ++ frames') = deliver handle page frames := by
  induction frames generalizing page with
  | nil => exact absurd rfl h
  | cons f frames ih =>
      rcases hf : handle page f with ⟨page', _ | error⟩
      · rw [deliver_cons_of_none hf] at h
        rw [List.cons_append, deliver_cons_of_none hf, deliver_cons_of_none hf, ih h]
      · rw [List.cons_append, deliver_cons_of_some hf, deliver_cons_of_some hf]

/-! ## The loop and the frames -/

theorem drain_of_absent (h : Absent blankLine r.buffer) : drain handle r = r := by
  rw [drain]
  split
  · rfl
  · rename_i idx hidx
    exact absurd h (indexOf_eq_some hidx).not_absent

theorem drain_of_first (h : First blankLine f rest r.buffer) :
    drain handle r =
      match handle r.page f with
      | (page, none) => drain handle ⟨page, rest, r.handed ++ [f], none⟩
      | (page, some error) => ⟨page, rest, r.handed ++ [f], some error⟩ := by
  rw [drain]
  split
  · rename_i hidx
    exact absurd (indexOf_eq_none hidx) h.not_absent
  · rename_i idx hidx
    obtain ⟨hf, hrest⟩ := (indexOf_eq_some hidx).unique h
    rw [show idx + 2 = idx + blankLine.length from rfl, hf, hrest]

/-- The reader has handed over these frames, and keeps the tail. -/
structure Drained (handle : σ → Str → σ × Option JsError) (r : FrameReader σ)
    (frames : List Str) (tail : Str) (r' : FrameReader σ) : Prop where
  page : r'.page = (deliver handle r.page frames).page
  handed : r'.handed = r.handed ++ (deliver handle r.page frames).handed
  thrown : r'.thrown = (deliver handle r.page frames).thrown
  buffer : r'.thrown = none → r'.buffer = tail

/-- **The inner loop** hands over the frames of its buffer. -/
theorem drained_drain (hr : r.thrown = none) (h : Framed blankLine r.buffer frames tail) :
    Drained handle r frames tail (drain handle r) := by
  generalize hbuffer : r.buffer = buffer at h
  induction h generalizing r with
  | tail hno =>
      rw [drain_of_absent (hbuffer ▸ hno)]
      exact ⟨rfl, by simp [deliver], hr, fun _ ↦ hbuffer⟩
  | @frame f rest buffer tail frames hfirst _ ih =>
      rw [drain_of_first (hbuffer ▸ hfirst)]
      rcases hf : handle r.page f with ⟨page', _ | error⟩
      · have hdrained := ih (r := ⟨page', rest, r.handed ++ [f], none⟩) rfl rfl
        refine ⟨?_, ?_, ?_, hdrained.buffer⟩
        · rw [deliver_cons_of_none hf, hdrained.page]
        · rw [deliver_cons_of_none hf, hdrained.handed, List.append_assoc]
          rfl
        · rw [deliver_cons_of_none hf, hdrained.thrown]
      · refine ⟨?_, ?_, ?_, fun hnone ↦ by cases hnone⟩ <;> rw [deliver_cons_of_some hf]

theorem Drained.trans (h : Drained handle r frames tail r') (hnone : r'.thrown = none)
    {r'' : FrameReader σ} (h' : Drained handle r' frames' tail' r'') :
    Drained handle r (frames ++ frames') tail' r'' := by
  have hthrown : (deliver handle r.page frames).thrown = none := h.thrown.symm.trans hnone
  refine ⟨?_, ?_, ?_, h'.buffer⟩
  · rw [deliver_append hthrown, h'.page, h.page]
  · rw [deliver_append hthrown, h'.handed, h.handed, h.page, deliver_handed hthrown,
      List.append_assoc]
  · rw [deliver_append hthrown, h'.thrown, h.page]

theorem Drained.of_thrown (h : Drained handle r frames tail r') (hsome : r'.thrown ≠ none)
    (frames' : List Str) (tail' : Str) : Drained handle r (frames ++ frames') tail' r' := by
  have heq := @deliver_append_of_thrown _ handle r.page frames frames' (h.thrown ▸ hsome)
  refine ⟨?_, ?_, ?_, fun hnone ↦ absurd hnone hsome⟩ <;> rw [heq]
  · exact h.page
  · exact h.handed
  · exact h.thrown

/-- A reader that has been left stays as it is. -/
theorem readLoop_of_thrown {chunks : List Str} (hr : r.thrown ≠ none) :
    readLoop handle r chunks = r := by
  induction chunks with
  | nil => rfl
  | cons chunk chunks ih =>
      obtain ⟨error, herror⟩ := Option.ne_none_iff_exists'.mp hr
      rw [readLoop, List.foldl_cons, readChunk, herror]
      exact ih

/-- **The loop.**  The frames of the whole text are handed over, however it is cut into
chunks. -/
theorem drained_readLoop {chunks : List Str} (hr : r.thrown = none)
    (h : Framed blankLine (r.buffer ++ chunks.flatten) frames tail)
    (hbuffer : Absent blankLine r.buffer) :
    Drained handle r frames tail (readLoop handle r chunks) := by
  induction chunks generalizing r frames with
  | nil =>
      rw [List.flatten_nil, List.append_nil] at h
      obtain ⟨rfl, rfl⟩ := h.unique (.tail hbuffer)
      exact ⟨rfl, by simp [deliver, readLoop], hr, fun _ ↦ rfl⟩
  | cons chunk chunks ih =>
      obtain ⟨gs, rest, hgs⟩ := Framed.exists_framed blankLine_ne_nil (r.buffer ++ chunk)
      obtain ⟨hs, tail', hhs⟩ := Framed.exists_framed blankLine_ne_nil (rest ++ chunks.flatten)
      obtain ⟨rfl, rfl⟩ : frames = gs ++ hs ∧ tail = tail' := by
        refine h.unique ?_
        rw [List.flatten_cons, ← List.append_assoc]
        exact hgs.append hhs
      have hchunk : Drained handle r gs rest (readChunk handle r chunk) := by
        unfold readChunk
        split
        · rename_i hsome
          cases hr.symm.trans hsome
        · obtain ⟨hpage, hhanded, hthrown, hbuffer⟩ :=
            drained_drain (r := { r with buffer := r.buffer ++ chunk }) hr hgs
          exact ⟨hpage, hhanded, hthrown, hbuffer⟩
      change Drained handle r (gs ++ hs) tail (readLoop handle (readChunk handle r chunk) chunks)
      by_cases hthrown : (readChunk handle r chunk).thrown = none
      · -- what is left of the chunk waits in the buffer
        have hrest := hchunk.buffer hthrown
        exact hchunk.trans hthrown (ih hthrown (by rwa [hrest]) (by rw [hrest]; exact hgs.absent))
      · rw [readLoop_of_thrown hthrown]
        exact hchunk.of_thrown hthrown hs tail

variable (handle page) in
/-- The loop from its start. -/
theorem drained_start {chunks : List Str} (h : Framed blankLine chunks.flatten frames tail) :
    Drained handle (.start page) frames tail (readLoop handle (.start page) chunks) :=
  drained_readLoop rfl h (absent_pair .nil)

end

/-! ## The events of the server -/

/-- A hit as `serde_json::to_string` writes it: an object, on one line. -/
structure HitJson where
  text : Str
  head : text.head? = some '{'
  line : '\n' ∉ text

/-- The event that `stream_hits` makes of a hit, without the blank line behind it. -/
def HitJson.frame (json : HitJson) : Str :=
  ("event: hit".toList ++ '\n' :: "data: ".toList) ++ json.text

namespace HitJson

variable (json : HitJson)

theorem ne_nil : json.text ≠ [] := by
  intro hnil
  have hhead := json.head
  rw [hnil] at hhead
  cases hhead

theorem lines_frame :
    frameLines json.frame = ["event: hit".toList, "data: ".toList ++ json.text] := by
  have hdata : '\n' ∉ "data: ".toList ++ json.text := by simpa using json.line
  have hsplit : json.frame.splitOn '\n' = ["event: hit".toList, "data: ".toList ++ json.text] := by
    have hlines : json.frame = "event: hit".toList ++ '\n' :: ("data: ".toList ++ json.text) :=
      List.append_assoc _ _ _
    rw [hlines, List.splitOn_append_cons_self_of_not_mem (by decide),
      List.splitOn_eq_singleton hdata]
  rw [frameLines, hsplit]
  rfl

theorem frameEvent_lines : frameEvent (frameLines json.frame) = "hit".toList := by
  rw [lines_frame]
  rfl

theorem frameData_lines : frameData (frameLines json.frame) = json.text := by
  have htrim : jsTrimStart (' ' :: json.text) = json.text := by
    obtain ⟨rest, hrest⟩ := List.head?_eq_some_iff.mp json.head
    rw [hrest]
    rfl
  rw [lines_frame]
  calc frameData ["event: hit".toList, "data: ".toList ++ json.text]
      = ['\n'].intercalate [jsTrimStart (' ' :: json.text)] := rfl
    _ = json.text := by rw [htrim, List.intercalate_singleton]

/-- The event has no empty line, also not behind its last one. -/
theorem absent_frame : Absent blankLine (json.frame ++ blankLine.dropLast) := by
  refine absent_pair ?_
  have htext : json.text.IsChain fun c d ↦ c ≠ '\n' ∨ d ≠ '\n' := by
    refine List.isChain_iff_forall_rel_of_append_cons_cons.mpr fun c d before after heq ↦ .inl ?_
    rintro rfl
    exact json.line (by simp [heq])
  have hnames : ("event: hit".toList ++ '\n' :: "data: ".toList).IsChain
      fun c d ↦ c ≠ '\n' ∨ d ≠ '\n' := by
    decide
  have hevent : json.frame.IsChain fun c d ↦ c ≠ '\n' ∨ d ≠ '\n' := by
    refine List.isChain_append.mpr ⟨hnames, htext, fun c hc d hd ↦ .inr ?_⟩
    rintro rfl
    exact json.line (List.mem_of_head? hd)
  have hlast : json.frame.getLast? = json.text.getLast? :=
    List.getLast?_append_of_ne_nil _ json.ne_nil
  refine List.isChain_append.mpr ⟨hevent, .singleton _, fun c hc d _ ↦ .inl ?_⟩
  rintro rfl
  exact json.line (List.mem_of_getLast? (hlast ▸ hc))

/-- The event in front of other text is one frame. -/
theorem framed {s tail : Str} {frames : List Str} (h : Framed blankLine s frames tail) :
    Framed blankLine (json.frame ++ (blankLine ++ s)) (json.frame :: frames) tail :=
  .frame (.of_absent json.absent_frame s) h

variable {V : Type} {parse : Str → Except JsError V} {renderHits : List V → Option JsError}

/-- **The frame of a hit** appends the hit. -/
theorem handleSseFrame_frame {hit : V} (hparse : parse json.text = .ok hit) (page : Feed V) :
    handleSseFrame parse renderHits page json.frame = page.appendHit renderHits hit := by
  rw [handleSseFrame, frameEvent_lines, frameData_lines, if_neg (by decide),
    if_pos ⟨rfl, json.ne_nil⟩, hparse]

end HitJson

/-! ## Chunks -/

section

variable {V : Type} (parse : Str → Except JsError V) (renderHits : List V → Option JsError)

/-- What the page keeps to. -/
structure FrameLaws (page : Feed V) : Prop where
  /-- The frames are cut out of the whole text, whatever the chunks.  They are handed over in
  order, up to the first that throws; when none throws the tail stays in the buffer. -/
  framing : ∀ text, ∃ frames tail, Framed blankLine text frames tail ∧
    ∀ chunks : List Str, chunks.flatten = text →
      let r := readLoop (handleSseFrame parse renderHits) (.start page) chunks
      let d := deliver (handleSseFrame parse renderHits) page frames
      r.page = d.page ∧ r.handed = d.handed ∧ r.thrown = d.thrown ∧ r.handed <+: frames ∧
        (r.thrown = none → r.handed = frames ∧ r.buffer = tail)
  /-- The page in the end does not depend on the chunks. -/
  openFetchStream : ∀ chunks error,
    openFetchStream parse renderHits page (.body chunks error) =
      openFetchStream parse renderHits page (.body [chunks.flatten] error)
  /-- The event of a hit is one frame, which appends the hit and throws what drawing throws. -/
  hit : ∀ (json : HitJson) (hit : V), parse json.text = .ok hit →
    (∀ s frames tail, Framed blankLine s frames tail →
      Framed blankLine (json.frame ++ (blankLine ++ s)) (json.frame :: frames) tail) ∧
    handleSseFrame parse renderHits page json.frame =
      ({ page with hits := Ui.appendHit page.hitLimit page.hits hit },
        renderHits (Ui.appendHit page.hitLimit page.hits hit))

variable {parse renderHits}

/-- **The frames of a stream** do not depend on its chunks. -/
theorem frameLaws (page : Feed V) : FrameLaws parse renderHits page where
  framing text := by
    obtain ⟨frames, tail, hframed⟩ := Framed.exists_framed blankLine_ne_nil text
    refine ⟨frames, tail, hframed, fun chunks hchunks ↦ ?_⟩
    have h := drained_start (handleSseFrame parse renderHits) page (hchunks ▸ hframed)
    refine ⟨h.page, h.handed, h.thrown, ?_, fun hnone ↦ ⟨?_, h.buffer hnone⟩⟩
    · rw [h.handed]
      exact deliver_handed_prefix
    · rw [h.handed]
      exact deliver_handed (h.thrown.symm.trans hnone)
  openFetchStream chunks error := by
    obtain ⟨frames, tail, hframed⟩ := Framed.exists_framed blankLine_ne_nil chunks.flatten
    have hone : Framed blankLine [chunks.flatten].flatten frames tail := by
      rwa [List.flatten_singleton]
    let live := { page with streamState := "SSE live".toList }
    have h := drained_start (handleSseFrame parse renderHits) live hframed
    have h' := drained_start (handleSseFrame parse renderHits) live hone
    simp only [Ui.openFetchStream]
    rw [h.page, h.thrown, h'.page, h'.thrown]
  hit json hit hparse := ⟨fun _ _ _ h ↦ json.framed h, json.handleSseFrame_frame hparse page⟩

/-- A hit that is no JSON, and an event behind it that is never handled. -/
theorem not_all_handed :
    ¬ ∀ (chunks frames : List Str) (tail : Str), Framed blankLine chunks.flatten frames tail →
      (readLoop (handleSseFrame
          (fun text ↦ .error ⟨"SyntaxError".toList,
            "Unexpected token 'x', \"".toList ++ text ++ "\" is not valid JSON".toList⟩)
          (fun _ : List Unit ↦ none))
        (.start ⟨"SSE live".toList, 100, [], []⟩) chunks).handed = frames := by
  intro h
  let bad := "event: hit\ndata: x".toList
  let ready := "event: ready\ndata: \x7b\x7d".toList
  have hframed : Framed blankLine [bad ++ (blankLine ++ (ready ++ (blankLine ++ [])))].flatten
      [bad, ready] [] :=
    .frame (.of_absent (absent_pair (by decide)) _)
      (.frame (.of_absent (absent_pair (by decide)) _) (.tail (absent_pair .nil)))
  have hall := h _ _ _ hframed
  rw [(drained_start _ _ hframed).handed] at hall
  exact absurd hall (by decide)

end

end Pwatch.Ui
