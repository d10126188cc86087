import Pwatch.Hit
import Pwatch.Ui.Frames
import Pwatch.Ui.JsValue

/-!
# The drawing of the hits

`renderHits` and `renderReg` of `pwatch-ui/app.js`.  The list of the page holds whatever
`JSON.parse` has made of the data of an event, and drawing a value that is no hit may throw.
What `serde` writes of a hit is always drawn (`renderHits_map`).

What the engine says in a `TypeError`, and how it writes a date, are parameters.
-/

namespace Pwatch.Ui

open Text Maps JsValue

/-! ## The cards -/

/-- The box of a register. -/
structure RegBox where
  name : Str
  value : Str
  /-- The `map-path` below the value. -/
  path : Option Str
deriving DecidableEq, Repr

/-- The card of a hit. -/
structure Card where
  title : List Str
  /-- The date. -/
  hitMeta : Str
  regs : List RegBox
  trace : Option Str
deriving DecidableEq, Repr

/-- What `renderHits` puts into `els.hitsList`. -/
inductive HitsList
  | /-- The template for an empty list. -/
    empty
  | cards (cards : List Card)
deriving DecidableEq, Repr

structure Drawing where
  /-- `els.hitCount.textContent` -/
  hitCount : Str
  hitsList : HitsList
deriving DecidableEq, Repr

/-- What the page takes from its browser. -/
structure Browser where
  /-- The message of a `TypeError`. -/
  message : Fault → Str
  /-- `new Date(Number(value)).toLocaleString()`, where `Number` does not throw. -/
  dateText : JsValue → Str

/-! ## The functions of the page -/

/-- `renderReg`. -/
def renderReg (reg : JsValue) : Except Fault RegBox := do
  let name ← (← reg.get "name".toList).textContent
  let value ← (← reg.get "value".toList).textContent
  let resolved ← reg.get "resolved".toList
  if resolved.truthy then
    let display ← (← resolved.get "display".toList).toText
    let pathname ← (← resolved.get "region".toList).get "pathname".toList
    let pathname ← (pathname.orElse (string [])).toText
    return { name, value, path := some (jsTrim (display ++ ' ' :: pathname)) }
  else
    return { name, value, path := none }

/-- `frame.display || frame.value`. -/
def frameText (frame : JsValue) : Except Fault JsValue := do
  return (← frame.get "display".toList).orElse (← frame.get "value".toList)

/-- The frames of a backtrace, or its addresses when it has no frames. -/
def backtraceOf (hit : JsValue) : Except Fault JsValue := do
  let frames ← hit.get "backtrace_frames".toList
  if (← frames.get? "length".toList).truthy then
    return array (← (← frames.elementsFor "map".toList).mapM frameText)
  else hit.get "backtrace".toList

/-- The line of a backtrace that is not empty. -/
def traceOf (backtrace : JsValue) : Except Fault (Option Str) := do
  if (← backtrace.get? "length".toList).truthy then
    let texts ← elementTexts (← backtrace.elementsFor "join".toList)
    return some ("backtrace: ".toList ++ " -> ".toList.intercalate texts)
  else return none

variable (browser : Browser)

/-- The card that the loop of `renderHits` makes.  `Number` throws where `String` does. -/
def renderHit (hit : JsValue) : Except Fault Card := do
  let seq ← (← hit.get "seq".toList).toText
  let breakpointId ← (← hit.get "breakpoint_id".toList).toText
  let pid ← (← hit.get "pid".toList).toText
  let tid ← (← hit.get "tid".toList).toText
  let timestampMs ← hit.get "timestamp_ms".toList
  let _ ← timestampMs.toText
  let regs ← (← (← hit.get "regs".toList).iterate).mapM renderReg
  let trace ← traceOf (← backtraceOf hit)
  return {
    title := ['#' :: seq, "bp ".toList ++ breakpointId, "pid ".toList ++ pid,
      "tid ".toList ++ tid]
    hitMeta := browser.dateText timestampMs
    regs, trace }

/-- `renderHits`. -/
def renderHits (hits : List JsValue) : Except Fault Drawing := do
  let hitCount := Nat.toDigits 10 hits.length ++ " events".toList
  if hits.isEmpty then return { hitCount, hitsList := .empty }
  let cards ← hits.reverse.mapM (renderHit browser)
  return { hitCount, hitsList := .cards cards }

/-- What `renderHits` throws. -/
def renderError (hits : List JsValue) : Option JsError :=
  match renderHits browser hits with
  | .ok _ => none
  | .error fault => some ⟨"TypeError".toList, browser.message fault⟩

/-! ## The hits of the server -/

section

variable (number : Nat → Str)

/-- A `MapRegion` as `serde` writes it, with the text that the page has for a number. -/
def ofRegion (region : MapRegion) : JsValue :=
  object [("start".toList, string region.start), ("end".toList, string region.stop),
    ("perms".toList, string region.perms), ("offset".toList, string region.offset),
    ("dev".toList, string region.dev), ("inode".toList, .number (number region.inode.toNat)),
    ("pathname".toList, ofOption string region.pathname)]

/-- An `AddressResolution`. -/
def ofResolution (resolution : AddressResolution) : JsValue :=
  object [("region".toList, ofRegion number resolution.region),
    ("module".toList, string resolution.module), ("offset".toList, string resolution.offset),
    ("display".toList, string resolution.display)]

/-- A `RegisterValue`. -/
def ofRegister (reg : RegisterValue) : JsValue :=
  object [("name".toList, string reg.name), ("value".toList, string reg.value),
    ("map".toList, ofOption (ofRegion number) reg.map),
    ("resolved".toList, ofOption (ofResolution number) reg.resolved),
    ("display".toList, string reg.display)]

/-- An `AddressValue`. -/
def ofFrame (frame : AddressValue) : JsValue :=
  object [("value".toList, string frame.value),
    ("resolved".toList, ofOption (ofResolution number) frame.resolved),
    ("display".toList, string frame.display)]

/-- A `Hit`. -/
def ofHit (hit : Hit) : JsValue :=
  object [("seq".toList, .number (number hit.seq.toNat)),
    ("breakpoint_id".toList, .number (number hit.breakpointId.toNat)),
    ("pid".toList, .number (number hit.pid.toNat)), ("tid".toList, .number (number hit.tid.toNat)),
    ("timestamp_ms".toList, .number (number hit.timestampMs)),
    ("regs".toList, array (hit.regs.map (ofRegister number))),
    ("simd".toList, array (hit.simd.map (ofRegister number))),
    ("backtrace".toList, ofOption (fun backtrace ↦ array (backtrace.map string)) hit.backtrace),
    ("backtrace_frames".toList,
      ofOption (fun frames ↦ array (frames.map (ofFrame number))) hit.backtraceFrames)]

end

/-! ## What is drawn of them -/

/-- The box of a register of the server. -/
def regBox (reg : RegisterValue) : RegBox where
  name := reg.name
  value := reg.value
  path := reg.resolved.map fun resolved ↦
    jsTrim (resolved.display ++ ' ' :: resolved.region.pathname.getD [])

/-- The texts of a backtrace. -/
def backtraceTexts (hit : Hit) : List Str :=
  match hit.backtraceFrames with
  | none | some [] => hit.backtrace.getD []
  | some frames => frames.map fun frame ↦ if frame.display = [] then frame.value else frame.display

/-- The line of a backtrace with these texts. -/
def traceLine (texts : List Str) : Option Str :=
  if texts = [] then none else some ("backtrace: ".toList ++ " -> ".toList.intercalate texts)

/-- The card of a hit of the server. -/
def hitCard (number : Nat → Str) (hit : Hit) : Card where
  title := ['#' :: number hit.seq.toNat, "bp ".toList ++ number hit.breakpointId.toNat,
    "pid ".toList ++ number hit.pid.toNat, "tid ".toList ++ number hit.tid.toNat]
  hitMeta := browser.dateText (.number (number hit.timestampMs))
  regs := hit.regs.map regBox
  trace := traceLine (backtraceTexts hit)

section

variable (number : Nat → Str) {α β : Type}

/-- What throws for none of the values of a list. -/
theorem mapM_map_eq_ok {f : JsValue → Except Fault β} {value : α → JsValue} {g : α → β}
    (h : ∀ a, f (value a) = .ok (g a)) (l : List α) : (l.map value).mapM f = .ok (l.map g) := by
  have hf : f ∘ value = fun a ↦ .ok (g a) := funext h
  rw [List.mapM_map, hf]
  exact List.mapM_pure

theorem renderReg_ofRegister (reg : RegisterValue) :
    renderReg (ofRegister number reg) = .ok (regBox reg) := by
  obtain ⟨name, value, map, resolved, display⟩ := reg
  cases resolved with
  | none => rfl
  | some resolved =>
      obtain ⟨⟨start, stop, perms, offset, dev, inode, pathname⟩, module, offset', display'⟩ :=
        resolved
      -- an empty path counts as none
      rcases pathname with _ | _ | ⟨c, pathname⟩ <;> rfl

theorem traceOf_strings (texts : List Str) :
    traceOf (array (texts.map string)) = .ok (traceLine texts) := by
  have hlength : (array (texts.map string)).get? "length".toList =
      .ok (.number (Nat.toDigits 10 (texts.map string).length)) := rfl
  have helements : (array (texts.map string)).elementsFor "join".toList =
      .ok (texts.map string) := rfl
  simp only [traceOf, hlength, helements, bind, Except.bind, pure, Except.pure, truthy_toDigits,
    elementTexts_strings, List.length_map]
  cases texts <;> rfl

theorem traceOf_ofOption (backtrace : Option (List Str)) :
    traceOf (ofOption (fun backtrace ↦ array (backtrace.map string)) backtrace) =
      .ok (traceLine (backtrace.getD [])) := by
  cases backtrace with
  | none => rfl
  | some backtrace => exact traceOf_strings backtrace

theorem frameText_ofFrame (frame : AddressValue) : frameText (ofFrame number frame) =
    .ok (string (if frame.display = [] then frame.value else frame.display)) := by
  obtain ⟨value, resolved, _ | ⟨c, display⟩⟩ := frame <;> rfl

/-- The frames of a hit are its backtrace, unless there are none. -/
theorem backtraceOf_ofHit (hit : Hit) : backtraceOf (ofHit number hit) =
    .ok (match hit.backtraceFrames with
      | none | some [] => ofOption (fun backtrace ↦ array (backtrace.map string)) hit.backtrace
      | some _ => array ((backtraceTexts hit).map string)) := by
  obtain ⟨seq, breakpointId, pid, tid, timestampMs, regs, simd, backtrace, frames⟩ := hit
  cases frames with
  | none => rfl
  | some frames =>
      have hframes : ∀ {hit : Hit}, hit.backtraceFrames = some frames →
          (ofHit number hit).get "backtrace_frames".toList =
            .ok (array (frames.map (ofFrame number))) := by
        rintro hit h
        change Except.ok (ofOption _ hit.backtraceFrames) = _
        rw [h]
        rfl
      have hlength : (array (frames.map (ofFrame number))).get? "length".toList =
          .ok (.number (Nat.toDigits 10 (frames.map (ofFrame number)).length)) := rfl
      have helements : (array (frames.map (ofFrame number))).elementsFor "map".toList =
          .ok (frames.map (ofFrame number)) := rfl
      have htexts := mapM_map_eq_ok (frameText_ofFrame number) frames
      simp only [backtraceOf, hframes, hlength, helements, htexts, bind, Except.bind, pure,
        Except.pure, truthy_toDigits, List.length_map]
      cases frames with
      | nil => rfl
      | cons frame frames =>
          rw [backtraceTexts, List.map_map]
          rfl

theorem traceOf_ofHit (hit : Hit) : backtraceOf (ofHit number hit) >>= traceOf =
    .ok (traceLine (backtraceTexts hit)) := by
  rw [backtraceOf_ofHit]
  rcases hframes : hit.backtraceFrames with _ | _ | ⟨frame, frames⟩
  · rw [backtraceTexts, hframes]
    exact traceOf_ofOption hit.backtrace
  · rw [backtraceTexts, hframes]
    exact traceOf_ofOption hit.backtrace
  · exact traceOf_strings _

theorem renderHit_ofHit (hit : Hit) :
    renderHit browser (ofHit number hit) = .ok (hitCard browser number hit) := by
  have hregs := mapM_map_eq_ok (renderReg_ofRegister number) hit.regs
  have htrace := traceOf_ofHit number hit
  calc renderHit browser (ofHit number hit)
    _ = ((hit.regs.map (ofRegister number)).mapM renderReg >>= fun regs ↦
          backtraceOf (ofHit number hit) >>= fun backtrace ↦ traceOf backtrace >>= fun trace ↦
            .ok { hitCard browser number hit with regs, trace }) := rfl
    _ = ((hit.regs.map (ofRegister number)).mapM renderReg >>= fun regs ↦
          (backtraceOf (ofHit number hit) >>= traceOf) >>= fun trace ↦
            .ok { hitCard browser number hit with regs, trace }) := by simp only [bind_assoc]
    _ = .ok (hitCard browser number hit) := by rw [hregs, htrace]; rfl

/-- **A list of hits of the server is drawn**, the newest one first. -/
theorem renderHits_map (hits : List Hit) : renderHits browser (hits.map (ofHit number)) =
    .ok {
      hitCount := Nat.toDigits 10 hits.length ++ " events".toList
      hitsList :=
        if hits = [] then .empty else .cards (hits.reverse.map (hitCard browser number)) } := by
  have hcards := mapM_map_eq_ok (renderHit_ofHit browser number) hits.reverse
  rw [List.map_reverse] at hcards
  cases hits with
  | nil => rfl
  | cons hit hits =>
      simp only [renderHits, hcards, List.length_map]
      rfl

/-- Drawing a list of hits of the server throws nothing. -/
theorem renderError_map (hits : List Hit) :
    renderError browser (hits.map (ofHit number)) = none := by
  rw [renderError, renderHits_map]

end

end Pwatch.Ui
