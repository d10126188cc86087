import Pwatch.Server.Ledger
import Pwatch.Server.Ownership

/-!
# Where a hit comes from

Between a hit of the driver and a hit that a client sees stand the poll of a watch, its
filter, `on_hit`, the queue and the worker.  The samples of one watch go this way in their
order and lose company only where the queue is full, each loss counted: what was handed to
`on_hit` is what the polls returned, up to what the thread still has in hand
(`exists_handed`).
-/

namespace Pwatch.Server

open Watch

/-! ## The identity of a watch -/

/-- The watch of a create keeps its id and its configuration. -/
theorem CreateStep.identity {c c' : Create} {we : Option Watch.Event} (h : CreateStep c we c')
    (hpending : c.phase.Pending → c.launched = none) {l : Launched} (hl : c.launched = some l) :
    ∃ l', c'.launched = some l' ∧ l'.id = l.id ∧ l'.config = l.config := by
  cases h with
  | same | accept | answer | check | lockInsert | insert => exact ⟨l, hl, rfl, rfl⟩
  | number hp =>
      rw [hpending (by rw [hp]; trivial)] at hl
      cases hl
  | watch hl₀ | launchFailed hl₀ | launched hl₀ =>
      cases hl.symm.trans hl₀
      exact ⟨_, rfl, rfl, rfl⟩

/-- The filter of a watch lets a hit of the driver through. -/
def Launched.passes (l : Launched) (hit : Driver.Hit) : Bool :=
  l.config.filter.all fun filter ↦ filter.matches (sampleOf hit)

theorem deliver_eq_map_passes (l : Launched) (hits : List Driver.Hit) :
    deliver l.config.filter hits = (hits.filter l.passes).map sampleOf := by
  rw [deliver, List.filter_map]
  rfl

/-! ## What a hit carries -/

/-- The numbers of a sample, as the hit that is made of it shows them. -/
structure Carries (arch : Arch) (data : SampleData) (hit : Hit) : Prop where
  pid : hit.pid = data.pid
  tid : hit.tid = data.tid
  regs : hit.regs.map (fun entry ↦ (entry.name, entry.value)) =
    data.regs.mapIdx fun i value ↦ (arch.idToStr i, Hit.hexText value)
  backtrace : hit.backtrace = data.backtrace.map fun frames ↦ frames.map Hit.hexText
  simd : hit.simd.map (fun entry ↦ entry.value) =
    data.simd.flatMap fun value ↦ [Hit.hexText value.1, Hit.hexText value.2]

theorem carries_makeHitWithMaps (arch : Arch) (nextSeq : UInt64) (timestampMs : Nat)
    (breakpointId : UInt64) (data : SampleData)
    (regResolutions : List (Option Maps.AddressResolution))
    (backtraceResolutions : Option (List (Option Maps.AddressResolution))) :
    Carries arch data (Hit.makeHitWithMaps arch nextSeq timestampMs breakpointId data
      regResolutions backtraceResolutions).1 where
  pid := rfl
  tid := rfl
  regs := List.ext_getElem (by simp [Hit.makeHitWithMaps]) fun i _ _ ↦ by
    simp [Hit.makeHitWithMaps, Hit.makeRegister]
  backtrace := rfl
  simd := by
    rw [Hit.makeHitWithMaps, List.map_flatten, List.flatMap_def]
    congr 1
    exact List.ext_getElem (by simp) fun i _ _ ↦ by simp [Hit.makeSimdRegister]

namespace Pipeline

variable {arch : Arch} {limit : Nat} {es : List Event} {s : Pipeline}

/-- A hit that was made carries its sample, under the id of its sample. -/
theorem carries_of_numbered (hrun : Run (Step arch limit) initial es s) :
    ∀ p ∈ numberedSamples es, Carries arch p.1.data p.2 ∧ p.2.breakpointId = p.1.breakpointId := by
  induction hrun with
  | nil =>
      intro p hp
      cases hp
  | @snoc es s t e _ hstep ih =>
      intro p hp
      rw [numberedSamples_snoc, List.mem_append] at hp
      rcases hp with hp | hp
      · exact ih p hp
      · cases hstep with
        | number hw hmake =>
            cases hmake
            cases List.mem_singleton.mp hp
            exact ⟨carries_makeHitWithMaps .., rfl⟩
        | _ => cases hp

/-- The hits past the buffer are the first that were made. -/
theorem pushedHits_eq_take (h : Accounts limit es s) :
    pushedHits es = ((numberedSamples es).take (pushedHits es).length).map Prod.snd := by
  rw [List.map_take, h.made, List.take_left]

end Pipeline

namespace System

variable {ρ : Type}

/-! ## What a history says about one watch -/

/-- The hits the driver returns to the watch of a create at an event. -/
def Event.hitsOf (r : Nat) : Event ρ → List Driver.Hit
  | .polled r' _ hits _ => if r' = r then hits else []
  | _ => []

/-- The samples the watch of a create has to hand to `on_hit` from an event on. -/
def Event.callsOf (r : Nat) : Event ρ → List SampleData
  | .polled r' _ _ calls => if r' = r then calls else []
  | _ => []

/-- The sample the watch of a create puts in the queue at an event. -/
def Event.acceptedOf (r : Nat) : Event ρ → Option QueuedSample
  | .onHit r' (.accepted sample) => if r' = r then some sample else none
  | _ => none

/-- The drop the watch of a create counts at an event. -/
def Event.dropOf (r : Nat) : Event ρ → Option UInt64
  | .onHit r' (.dropped id) => if r' = r then some id else none
  | _ => none

/-- The hits the driver has returned to the watch of a create, in order. -/
def polledHits (r : Nat) (es : List (Event ρ)) : List Driver.Hit := es.flatMap (Event.hitsOf r)

/-- The samples the watch of a create had to hand to `on_hit`, in order. -/
def calls (r : Nat) (es : List (Event ρ)) : List SampleData := es.flatMap (Event.callsOf r)

/-- The samples the watch of a create has put in the queue, in order. -/
def accepted (r : Nat) (es : List (Event ρ)) : List QueuedSample :=
  es.filterMap (Event.acceptedOf r)

/-- The drops the watch of a create has counted. -/
def drops (r : Nat) (es : List (Event ρ)) : List UInt64 := es.filterMap (Event.dropOf r)

section

variable (r : Nat) (es : List (Event ρ)) (e : Event ρ)

@[simp] theorem polledHits_snoc :
    polledHits r (es ++ [e]) = polledHits r es ++ e.hitsOf r := by
  simp [polledHits]

@[simp] theorem calls_snoc : calls r (es ++ [e]) = calls r es ++ e.callsOf r := by
  simp [calls]

@[simp] theorem accepted_snoc :
    accepted r (es ++ [e]) = accepted r es ++ (e.acceptedOf r).toList :=
  filterMap_snoc _ es e

@[simp] theorem drops_snoc : drops r (es ++ [e]) = drops r es ++ (e.dropOf r).toList :=
  filterMap_snoc _ es e

end

variable [DecidableEq ρ] {arch : Arch} {limit : Nat} {before es : List (Event ρ)}
  {s t : System ρ} {e : Event ρ} {r : Nat}

/-! ## From the polls to the queue -/

/-- What was handed to `on_hit`: `accepted` of it is in the queue, in order, and the rest was
dropped. -/
structure Handed (handed accepted : List SampleData) (dropped : Nat) : Prop where
  sublist : accepted.Sublist handed
  length_eq : handed.length = accepted.length + dropped

theorem Handed.accept {handed accepted : List SampleData} {dropped : Nat}
    (h : Handed handed accepted dropped) (data : SampleData) :
    Handed (handed ++ [data]) (accepted ++ [data]) dropped where
  sublist := h.sublist.append (.refl _)
  length_eq := by
    rw [List.length_append, List.length_append, h.length_eq]
    omega

theorem Handed.drop {handed accepted : List SampleData} {dropped : Nat}
    (h : Handed handed accepted dropped) (data : SampleData) :
    Handed (handed ++ [data]) accepted (dropped + 1) where
  sublist := h.sublist.trans (List.sublist_append_left ..)
  length_eq := by
    rw [List.length_append, h.length_eq, Nat.add_assoc]
    rfl

/-- **Nothing is lost on the way to the queue.**  What a watch had in hand and what its polls
have added is what was handed to `on_hit`, and what it has in hand now. -/
theorem exists_handed (r : Nat) (hrun : Run (Step arch limit) s es t) :
    ∃ handed, s.toDeliver r ++ calls r es = handed ++ t.toDeliver r ∧
      Handed handed ((accepted r es).map fun sample ↦ sample.data) (drops r es).length := by
  induction hrun with
  | nil => exact ⟨[], by simp [calls], ⟨.slnil, rfl⟩⟩
  | @snoc es t u e _ hstep ih =>
      obtain ⟨handed, hsplit, hhanded⟩ := ih
      rw [calls_snoc, accepted_snoc, drops_snoc]
      have hframe : u.toDeliver r = t.toDeliver r → e.callsOf r = [] → e.acceptedOf r = none →
          e.dropOf r = none → ∃ handed,
            s.toDeliver r ++ (calls r es ++ e.callsOf r) = handed ++ u.toDeliver r ∧
              Handed handed ((accepted r es ++ (e.acceptedOf r).toList).map fun q ↦ q.data)
                (drops r es ++ (e.dropOf r).toList).length := by
        intro hdeliver hcalls haccepted hdrop
        rw [hdeliver, hcalls, haccepted, hdrop]
        exact ⟨handed, by simpa using hsplit, by simpa using hhanded⟩
      cases hstep with
      | registry | create | remove | removeFailed | hitServer => exact hframe rfl rfl rfl rfl
      | reject => exact hframe rfl rfl rfl rfl
      | @poll r' l id hits registry hl hidle hw =>
          by_cases hr : r' = r
          · subst hr
            refine ⟨handed, ?_, by simpa [Event.acceptedOf, Event.dropOf] using hhanded⟩
            rw [hidle, List.append_nil] at hsplit
            simp [Event.callsOf, ← hsplit]
          · exact hframe (Function.update_of_ne (Ne.symm hr) ..) (if_neg hr) rfl rfl
      | @accept r' l data rest hitServer hl hnext hw =>
          by_cases hr : r' = r
          · subst hr
            rw [hnext] at hsplit
            refine ⟨handed ++ [data], by simp [Event.callsOf, hsplit], ?_⟩
            simpa [Event.acceptedOf, Event.dropOf] using hhanded.accept data
          · exact hframe (Function.update_of_ne (Ne.symm hr) ..) rfl (if_neg hr) rfl
      | @drop r' l data rest hitServer hl hnext hw =>
          by_cases hr : r' = r
          · subst hr
            rw [hnext] at hsplit
            refine ⟨handed ++ [data], by simp [Event.callsOf, hsplit], ?_⟩
            simpa [Event.acceptedOf, Event.dropOf] using hhanded.drop data
          · exact hframe (Function.update_of_ne (Ne.symm hr) ..) rfl rfl (if_neg hr)

/-! ## What the watch of a create has delivered -/

/-- A watch that was started keeps its id and its configuration. -/
theorem Step.identity (h : Step arch limit s e t) {ws : List Server.Event}
    (hs : Creates ws s.registry) {l : Launched}
    (hl : (s.registry.creates r).launched = some l) :
    ∃ l', (t.registry.creates r).launched = some l' ∧ l'.id = l.id ∧ l'.config = l.config := by
  have htakes := h.registry_takes
  generalize e.ofRegistry = we at htakes
  generalize t.registry = registry at htakes ⊢
  cases htakes with
  | idle => exact ⟨l, hl, rfl, rfl⟩
  | acts hstep => exact (hstep.create r).identity (hs.create r).pending hl

/-- The watch of a create hands on what its filter lets through, under its own name. -/
structure Delivers (r : Nat) (es : List (Event ρ)) (s : System ρ) : Prop where
  unlaunched : (s.registry.creates r).launched = none →
    polledHits r es = [] ∧ calls r es = [] ∧ accepted r es = []
  calls_eq : ∀ l, (s.registry.creates r).launched = some l →
    calls r es = deliver l.config.filter (polledHits r es)
  accepted_eq : ∀ l, (s.registry.creates r).launched = some l →
    ∀ sample ∈ accepted r es, sample.breakpointId = l.id ∧ sample.pid = l.config.pid

/-- A watch acts only after it was launched. -/
theorem Step.silent (h : Step arch limit s e t)
    (hl : (s.registry.creates r).launched = none) :
    e.hitsOf r = [] ∧ e.callsOf r = [] ∧ e.acceptedOf r = none := by
  have hne : ∀ {r' l'}, (s.registry.creates r').launched = some l' → r' ≠ r := by
    rintro r' l' hl' rfl
    rw [hl] at hl'
    cases hl'
  cases h with
  | poll hl' => exact ⟨if_neg (hne hl'), if_neg (hne hl'), rfl⟩
  | accept hl' => exact ⟨rfl, rfl, if_neg (hne hl')⟩
  | _ => exact ⟨rfl, rfl, rfl⟩

/-- What a watch does at a step. -/
theorem Step.delivers (h : Step arch limit s e t) {l : Launched}
    (hl : (s.registry.creates r).launched = some l) :
    e.callsOf r = deliver l.config.filter (e.hitsOf r) ∧
      ∀ sample, e.acceptedOf r = some sample →
        sample.breakpointId = l.id ∧ sample.pid = l.config.pid := by
  have hsame : ∀ {r' l'}, (s.registry.creates r').launched = some l' → r' = r → l' = l := by
    rintro r' l' hl' rfl
    exact Option.some.inj (hl'.symm.trans hl)
  cases h with
  | @poll r' l' id hits registry hl' =>
      refine ⟨?_, fun _ hnone ↦ by cases hnone⟩
      by_cases hr : r' = r
      · rw [Event.callsOf, if_pos hr, Event.hitsOf, if_pos hr, hsame hl' hr]
      · rw [Event.callsOf, if_neg hr, Event.hitsOf, if_neg hr]
        rfl
  | @accept r' l' data rest hitServer hl' =>
      refine ⟨rfl, fun sample hsample ↦ ?_⟩
      obtain ⟨hr, ⟨⟩⟩ := (Option.ite_none_right_eq_some ..).mp hsample
      rw [hsame hl' hr]
      exact ⟨rfl, rfl⟩
  | _ => exact ⟨rfl, fun _ hnone ↦ by cases hnone⟩

theorem delivers (r : Nat) (hbefore : Run (Step arch limit) initial before s)
    (hrun : Run (Step arch limit) s es t) : Delivers r es t := by
  induction hrun with
  | nil => exact ⟨fun _ ↦ ⟨rfl, rfl, rfl⟩, fun _ _ ↦ rfl, fun _ _ _ hnil ↦ by cases hnil⟩
  | @snoc es t u e hrun hstep ih =>
      have hs := creates_of_run (hbefore.append hrun)
      cases hl : (t.registry.creates r).launched with
      | none =>
          obtain ⟨hhits, hcalls, haccepted⟩ := ih.unlaunched hl
          obtain ⟨hhits', hcalls', haccepted'⟩ := hstep.silent hl
          have hempty : polledHits r (es ++ [e]) = [] ∧ calls r (es ++ [e]) = [] ∧
              accepted r (es ++ [e]) = [] := by
            simp [hhits, hcalls, haccepted, hhits', hcalls', haccepted']
          refine ⟨fun _ ↦ hempty, fun l _ ↦ ?_, fun l _ sample hsample ↦ ?_⟩
          · rw [hempty.1, hempty.2.1]
            rfl
          · rw [hempty.2.2] at hsample
            cases hsample
      | some l =>
          obtain ⟨l', hl', hid, hconfig⟩ := hstep.identity hs hl
          obtain ⟨hcalls, haccepted⟩ := hstep.delivers hl
          refine ⟨fun hnone ↦ ?_, fun l'' hl'' ↦ ?_, fun l'' hl'' sample hsample ↦ ?_⟩
          · rw [hl'] at hnone
            cases hnone
          · cases hl'.symm.trans hl''
            rw [calls_snoc, polledHits_snoc, deliver_append, hconfig, ← hcalls, ih.calls_eq l hl]
          · cases hl'.symm.trans hl''
            rw [hid, hconfig]
            rw [accepted_snoc, List.mem_append, Option.mem_toList] at hsample
            exact hsample.elim (ih.accepted_eq l hl sample) (haccepted sample)

/-! ## From the queue to the watch -/

/-- The sample that is put in the queue at an event, and the create whose watch puts it there. -/
def Event.acceptedBy : Event ρ → Option (Nat × QueuedSample)
  | .onHit r (.accepted sample) => some (r, sample)
  | _ => none

omit [DecidableEq ρ] in
/-- The samples of one watch are its part of all samples. -/
theorem accepted_eq_filter (r : Nat) (es : List (Event ρ)) :
    accepted r es = ((es.filterMap Event.acceptedBy).filter (·.1 = r)).map Prod.snd := by
  rw [List.filter_filterMap, List.map_filterMap, accepted]
  refine List.filterMap_congr fun e _ ↦ ?_
  cases e with
  | onHit r' e =>
      cases e with
      | accepted sample =>
          by_cases hr : r' = r <;> simp [Event.acceptedOf, Event.acceptedBy, hr]
      | _ => rfl
  | _ => rfl

/-- Only `on_hit` puts samples in the queue. -/
theorem behind_of_mem (hrun : Run (Step arch limit) s es t) :
    ∀ e, .hitServer e ∈ es → Behind e := by
  induction hrun with
  | nil =>
      intro e he
      cases he
  | snoc _ hstep ih =>
      intro e he
      rcases List.mem_append.mp he with he | he
      · exact ih e he
      · cases List.mem_singleton.mp he
        cases hstep with
        | hitServer _ hbehind => exact hbehind

/-- The queue takes what the watches put in it. -/
theorem acceptedSamples_eq (hrun : Run (Step arch limit) s es t) :
    Pipeline.acceptedSamples (pipelineEvents es) =
      (es.filterMap Event.acceptedBy).map Prod.snd := by
  rw [Pipeline.acceptedSamples, pipelineEvents, HitServer.pipelineEvents, hitServerEvents,
    List.filterMap_filterMap, List.filterMap_filterMap, List.map_filterMap]
  refine List.filterMap_congr fun e he ↦ ?_
  cases e with
  | onHit r e => cases e <;> rfl
  | hitServer e =>
      have hbehind := behind_of_mem hrun e he
      cases e with
      | pipeline e => cases e <;> first | rfl | exact hbehind.elim
      | _ => rfl
  | _ => rfl

/-- A sample in the queue names the watch that has put it there. -/
theorem launched_of_acceptedBy (hrun : Run (Step arch limit) initial es s) {p : Nat × QueuedSample}
    (hp : p ∈ es.filterMap Event.acceptedBy) :
    ∃ l, (s.registry.creates p.1).launched = some l ∧ l.id = p.2.breakpointId := by
  have hdelivers := delivers p.1 .nil hrun
  have hmem : p.2 ∈ accepted p.1 es := by
    rw [accepted_eq_filter]
    exact List.mem_map_of_mem (List.mem_filter.mpr ⟨hp, by simp⟩)
  cases hl : (s.registry.creates p.1).launched with
  | none =>
      rw [(hdelivers.unlaunched hl).2.2] at hmem
      cases hmem
  | some l => exact ⟨l, rfl, (hdelivers.accepted_eq l hl p.2 hmem).1.symm⟩

/-- **The samples of a breakpoint** are those of the watch that has its id. -/
theorem accepted_eq (hrun : Run (Step arch limit) initial es s)
    (hbound : (ledger (registryEvents es)).numbered.length < 2 ^ 64) {l : Launched}
    (hl : (s.registry.creates r).launched = some l) :
    accepted r es =
      (Pipeline.acceptedSamples (pipelineEvents es)).filter (·.breakpointId = l.id) := by
  have hregistered := registered (run_registry hrun) hbound
  rw [accepted_eq_filter, acceptedSamples_eq hrun, List.filter_map]
  refine congrArg _ (List.filter_congr fun p hp ↦ decide_eq_decide.mpr ?_)
  obtain ⟨l', hl', hid'⟩ := launched_of_acceptedBy hrun hp
  have hidOf : ∀ {r l}, (s.registry.creates r).launched = some l →
      s.registry.idOf r = some l.id := fun hl ↦ by rw [Registry.idOf, hl]; rfl
  constructor
  · rintro rfl
    cases hl.symm.trans hl'
    exact hid'.symm
  · intro hid
    refine hregistered.id_inj p.1 r l.id ?_ (hidOf hl)
    rw [hidOf hl', hid', hid]

/-! ## From the driver to the clients -/

/-- A list that maps to the first parts of pairs goes along with their second parts. -/
theorem forall₂_of_map_eq {α β γ δ : Type*} {R : δ → β → Prop} {f : δ → γ} {g : α → γ}
    {pairs : List (α × β)} {ds : List δ} (heq : pairs.map (fun p ↦ g p.1) = ds.map f)
    (hR : ∀ p ∈ pairs, ∀ d, g p.1 = f d → R d p.2) :
    List.Forall₂ R ds (pairs.map Prod.snd) := by
  induction pairs generalizing ds with
  | nil =>
      rw [List.map_nil, eq_comm, List.map_eq_nil_iff] at heq
      rw [heq]
      exact .nil
  | cons p pairs ih =>
      cases ds with
      | nil => cases heq
      | cons d ds =>
          rw [List.map_cons, List.map_cons, List.cons.injEq] at heq
          rw [List.map_cons]
          refine .cons (hR p List.mem_cons_self d heq.1) (ih heq.2 fun q hq ↦ ?_)
          exact hR q (List.mem_cons_of_mem _ hq)

/-- The part of a list that goes along with a piece of the other. -/
theorem exists_sublist_of_infix {α β : Type*} {R : α → β → Prop} {as : List α} {bs bs' : List β}
    (h : List.Forall₂ R as bs) (hpart : bs' <:+: bs) :
    ∃ as', as'.Sublist as ∧ List.Forall₂ R as' bs' := by
  obtain ⟨before, after, rfl⟩ := hpart
  have hdrop := List.forall₂_drop before.length h
  rw [List.append_assoc, List.drop_left] at hdrop
  have htake := List.forall₂_take bs'.length hdrop
  rw [List.take_left] at htake
  exact ⟨_, (List.take_sublist ..).trans (List.drop_sublist ..), htake⟩

/-- What has become of the hits the driver has returned to the watch of a create. -/
structure Provenance (arch : Arch) (es : List (Event ρ)) (s : System ρ) (r : Nat) (l : Launched) :
    Prop where
  /-- The hits under its id carry, in their order, hits that the driver has returned to this
  watch and that its filter lets through, none twice. -/
  origin : ∃ hits : List Driver.Hit, hits.Sublist ((polledHits r es).filter l.passes) ∧
    List.Forall₂ (fun driverHit hit ↦ Carries arch (sampleOf driverHit) hit) hits
      ((Pipeline.pushedHits (pipelineEvents es)).filter (·.breakpointId = l.id))
  /-- The others are counted as dropped, or they are on their way. -/
  account : ((polledHits r es).filter l.passes).length =
    ((Pipeline.pushedHits (pipelineEvents es)).filter (·.breakpointId = l.id)).length +
      (s.hitServer.pipeline.worker.unstored.toList.filter (·.breakpointId = l.id)).length +
      (s.hitServer.pipeline.worker.held.toList.filter (·.breakpointId = l.id)).length +
      (s.hitServer.pipeline.queue.filter (·.breakpointId = l.id)).length +
      (drops r es).length + (s.toDeliver r).length

/-- **Where the hits of a breakpoint come from.** -/
theorem provenance (hrun : Run (Step arch limit) initial es s)
    (hbound : (ledger (registryEvents es)).numbered.length < 2 ^ 64) {l : Launched}
    (hl : (s.registry.creates r).launched = some l) : Provenance arch es s r l := by
  have haccounts := Pipeline.accounts (run_pipeline hrun)
  have hcarries := Pipeline.carries_of_numbered (run_pipeline hrun)
  obtain ⟨handed, hcalls, hhanded⟩ := exists_handed r hrun
  have hnone : (initial : System ρ).toDeliver r = [] := rfl
  rw [(delivers r .nil hrun).calls_eq l hl, deliver_eq_map_passes, hnone,
    List.nil_append] at hcalls
  rw [accepted_eq hrun hbound hl] at hhanded
  have hsamples := haccounts.samples
  have hmade := haccounts.made
  have htake := Pipeline.pushedHits_eq_take haccounts
  have hnames : ∀ p ∈ Pipeline.numberedSamples (pipelineEvents es),
      (p.1.breakpointId = l.id ↔ p.2.breakpointId = l.id) := fun p hp ↦ by
    rw [(hcarries p hp).2]
  have hfilter : ∀ made' ⊆ Pipeline.numberedSamples (pipelineEvents es),
      (made'.map Prod.fst).filter (·.breakpointId = l.id) =
          (made'.filter (·.1.breakpointId = l.id)).map Prod.fst ∧
        (made'.map Prod.snd).filter (·.breakpointId = l.id) =
          (made'.filter (·.1.breakpointId = l.id)).map Prod.snd := by
    intro made' hsub
    refine ⟨List.filter_map .., (List.filter_map ..).trans (congrArg _ ?_)⟩
    exact List.filter_congr fun p hp ↦ decide_eq_decide.mpr (hnames p (hsub hp)).symm
  constructor
  · -- the samples of the hits that were pushed, as part of what was handed to `on_hit`
    let made' := (Pipeline.numberedSamples (pipelineEvents es)).take
      (Pipeline.pushedHits (pipelineEvents es)).length
    have hsub : made' ⊆ Pipeline.numberedSamples (pipelineEvents es) := List.take_subset ..
    have hfirst : (made'.map Prod.fst).Sublist (Pipeline.acceptedSamples (pipelineEvents es)) := by
      rw [hsamples, List.append_assoc]
      exact ((List.take_sublist ..).map _).trans (List.sublist_append_left ..)
    have hdata : ((made'.filter (·.1.breakpointId = l.id)).map fun p ↦ p.1.data).Sublist
        (((polledHits r es).filter l.passes).map sampleOf) := by
      have hpart := (hfirst.filter (·.breakpointId = l.id)).map fun sample ↦ sample.data
      rw [(hfilter made' hsub).1, List.map_map] at hpart
      rw [hcalls]
      exact (hpart.trans hhanded.sublist).trans (List.sublist_append_left ..)
    obtain ⟨hits, hhits, heq⟩ := List.sublist_map_iff.mp hdata
    refine ⟨hits, hhits, ?_⟩
    rw [htake, (hfilter made' hsub).2]
    refine forall₂_of_map_eq heq fun p hp hit hhit ↦ ?_
    exact hhit ▸ (hcarries p (hsub (List.mem_of_mem_filter hp))).1
  · have hlength := congrArg List.length hcalls
    rw [List.length_map, List.length_append, hhanded.length_eq, List.length_map,
      hsamples, List.filter_append, List.filter_append, (hfilter _ (List.Subset.refl _)).1,
      List.length_append, List.length_append, List.length_map] at hlength
    have hboth := congrArg List.length (hfilter _ (List.Subset.refl _)).2
    rw [hmade, List.filter_append, List.length_append, List.length_map] at hboth
    omega

/-- What a client can see: answers to `GET /hits` are pieces of the hits that were pushed, and
every hit in a stream is one of them. -/
theorem seen_was_pushed (hrun : Run (Step arch limit) initial es s) :
    (∀ request k answer, .hitServer (.pipeline (.hits request k answer)) ∈ es →
      answer <:+: Pipeline.pushedHits (pipelineEvents es)) ∧
    ∀ client hit, .hitServer (.received client hit) ∈ es →
      hit ∈ Pipeline.pushedHits (pipelineEvents es) := by
  -- what was pushed before an event is pushed at the end
  have hbefore : ∀ {earlier later : List (Event ρ)}, es = earlier ++ later →
      Pipeline.pushedHits (pipelineEvents earlier) <+:
        Pipeline.pushedHits (pipelineEvents es) := by
    rintro earlier later rfl
    rw [pipelineEvents, pipelineEvents, hitServerEvents, hitServerEvents, List.filterMap_append]
    exact HitServer.pushedHits_prefix ..
  refine ⟨fun request k answer hmem ↦ ?_, fun client hit hmem ↦ ?_⟩
  · obtain ⟨earlier, later, rfl⟩ := List.append_of_mem hmem
    obtain ⟨t, t', ht, hstep, -⟩ := hrun.split_event
    have hanswer := Pipeline.answer_suffix (run_pipeline ht)
      hstep.hitServer_takes.of_some.pipeline.of_some
    exact hanswer.isInfix.trans (hbefore rfl).isInfix
  · obtain ⟨earlier, later, rfl⟩ := List.append_of_mem hmem
    obtain ⟨t, t', ht, hstep, -⟩ := hrun.split_event
    obtain ⟨n, -, hsent, -⟩ := hstep.hitServer_takes.of_some.hitTx.of_some.next_received
    have hpushed := HitServer.pushedHits_eq (run_hitServer ht)
    refine (hbefore rfl).subset ?_
    rw [pipelineEvents, hpushed]
    exact List.mem_append_left _ (List.mem_of_getElem? hsent)

/-- Every hit was pushed under the id of a watch that was launched. -/
theorem exists_launched_of_pushed (hrun : Run (Step arch limit) initial es s) {hit : Hit}
    (hhit : hit ∈ Pipeline.pushedHits (pipelineEvents es)) :
    ∃ r l, (s.registry.creates r).launched = some l ∧ l.id = hit.breakpointId := by
  have haccounts := Pipeline.accounts (run_pipeline hrun)
  rw [Pipeline.pushedHits_eq_take haccounts] at hhit
  obtain ⟨p, hp, rfl⟩ := List.mem_map.mp hhit
  have hmade := List.mem_of_mem_take hp
  have hsample : p.1 ∈ Pipeline.acceptedSamples (pipelineEvents es) := by
    rw [haccounts.samples, List.append_assoc]
    exact List.mem_append_left _ (List.mem_map_of_mem hmade)
  rw [acceptedSamples_eq hrun] at hsample
  obtain ⟨q, hq, hqp⟩ := List.mem_map.mp hsample
  obtain ⟨l, hl, hid⟩ := launched_of_acceptedBy hrun hq
  refine ⟨q.1, l, hl, ?_⟩
  rw [hid, hqp, (Pipeline.carries_of_numbered (run_pipeline hrun) p hmade).2]

/-- **The provenance of hits.**  In every history of the server with fewer than `2 ^ 64`
breakpoints, every hit that a client has seen was pushed once, under the id of a watch that was
launched; the hits under the id of a watch carry, in order, hits that the driver has returned to
this watch and that its filter lets through; and all others of these are counted as dropped or
are on their way. -/
theorem hit_provenance (hrun : Run (Step arch limit) initial es s)
    (hbound : (ledger (registryEvents es)).numbered.length < 2 ^ 64) :
    (∀ r l, (s.registry.creates r).launched = some l → Provenance arch es s r l) ∧
    (∀ hit ∈ Pipeline.pushedHits (pipelineEvents es), ∃ r l,
      (s.registry.creates r).launched = some l ∧ l.id = hit.breakpointId) ∧
    (∀ request k answer, .hitServer (.pipeline (.hits request k answer)) ∈ es →
      answer <:+: Pipeline.pushedHits (pipelineEvents es)) ∧
    ∀ client hit, .hitServer (.received client hit) ∈ es →
      hit ∈ Pipeline.pushedHits (pipelineEvents es) := by
  refine ⟨fun r l hl ↦ ?_, fun hit hhit ↦ ?_, seen_was_pushed hrun⟩
  · exact provenance hrun hbound hl
  · exact exists_launched_of_pushed hrun hhit

/-! ## A hit that goes all the way -/

/-- The driver returns one hit, and its sample is in the queue. -/
theorem run_oneSample (ρ : Type) [DecidableEq ρ] (limit : Nat) :
    ∃ (es : List (Event ρ)) (s : System ρ) (l : Launched) (sample : QueuedSample),
      Run (Step .aarch64 limit) initial es s ∧ (ledger (registryEvents es)).numbered = [1] ∧
        (s.registry.creates 0).launched = some l ∧ l.id = 1 ∧
          l.watch = ⟨[7], [5], .polling [] 0, 0, false⟩ ∧
            hitServerEvents es = [.pipeline (.accepted sample)] ∧ sample.breakpointId = 1 ∧
              s.hitServer = ⟨{ Pipeline.initial with queue := [sample] }, .empty⟩ ∧
                s.toDeliver = (fun _ ↦ []) ∧ s.registry.lock = .free ∧
                  (s.registry.breakpoints.lookup 1).map (fun entry ↦ entry.watch) = some 0 ∧
                    s.registry.deletes 0 = .idle := by
  obtain ⟨ws, u, l, hws, hpolls, hcreated, hnumbered, hl, hid, hfilter, hwatch, hlock, hentry,
    hdelete⟩ := run_firstPass
  obtain ⟨installed, hlift, -⟩ : ∃ installed, Run (Step .aarch64 limit) (initial : System ρ)
      (ws.map ofServer) ⟨u, .initial, fun _ ↦ [], installed⟩ ∧ _ :=
    run_of_registry rfl hws hpolls (by rw [hcreated]; decide) fun _ _ ↦ rfl
  -- the poll
  let driverHit : Driver.Hit :=
    ⟨7, 7, ⟨.replicate 31 1, 0, 0, .replicate 32 (0, 0)⟩, 0, .replicate 32 0⟩
  let data := sampleOf driverHit
  let l' : Launched := { l with watch := ⟨[7], [5], .polling [] 0, 0, false⟩ }
  let u' := u.setCreate 0 { u.creates 0 with launched := some l' }
  let sample : QueuedSample := ⟨l'.id, l'.config.pid, data⟩
  let queued : Pipeline := { Pipeline.initial with queue := [sample] }
  let s₀ : System ρ := ⟨u, .initial, fun _ ↦ [], installed⟩
  let s₁ : System ρ := ⟨u', .initial, Function.update (fun _ ↦ []) 0 [data], installed⟩
  let s₂ : System ρ := ⟨u', ⟨queued, .empty⟩, fun _ ↦ [], installed⟩
  have hpoll : Step .aarch64 limit s₀ (.polled 0 5 [driverHit] [data]) s₁ := by
    have hdeliver : deliver l.config.filter [driverHit] = [data] := by
      rw [hfilter]
      rfl
    have hw : Watch.Step l.config l.watch (.polled 5 (deliver l.config.filter [driverHit]))
        l'.watch := by
      rw [hwatch]
      exact .poll rfl
    have h : Step .aarch64 limit s₀ (.polled 0 5 _ _) _ :=
      .poll hl rfl (.watch hl hw (by simp [Quiet]))
    rwa [hdeliver] at h
  -- the queue
  have haccept : Step .aarch64 limit s₁ (.onHit 0 (.accepted sample)) s₂ := by
    have hl' : (s₁.registry.creates 0).launched = some l' := by
      rw [Registry.setCreate_creates_self]
    have hnext : s₁.toDeliver 0 = data :: [] := rfl
    have hqueue : Pipeline.Step .aarch64 limit Pipeline.initial (.accepted sample) queued :=
      .accept rfl (by change 0 < sampleQueueCapacity; decide)
    have h : Step .aarch64 limit s₁ (.onHit 0 (.accepted sample)) _ :=
      .accept hl' hnext (HitServer.step_pipeline hqueue)
    have hempty : Function.update s₁.toDeliver 0 [] = fun _ ↦ [] := by
      rw [Function.update_idem]
      exact Function.update_eq_self ..
    rwa [hempty] at h
  refine ⟨_, s₂, l', sample, hlift.append (.cons hpoll (.single haccept)), ?_,
    by rw [Registry.setCreate_creates_self], hid, rfl, ?_, hid, rfl, rfl, hlock, hentry, hdelete⟩
  · rw [registryEvents_append, (events_map_ofServer ws).1, ← hnumbered]
    exact congrArg Ledger.numbered (ledger_snoc_of_none rfl rfl rfl rfl)
  · rw [hitServerEvents_append, (events_map_ofServer ws).2]
    rfl

/-- The driver returns one hit, and it is taken past the buffer. -/
theorem run_oneHit : ∃ (es : List (Event Unit)) (s : System Unit) (l : Launched) (hit : Hit),
    Run (Step .aarch64 0) initial es s ∧ (ledger (registryEvents es)).numbered = [1] ∧
      (s.registry.creates 0).launched = some l ∧ l.id = 1 ∧
        l.watch = ⟨[7], [5], .polling [] 0, 0, false⟩ ∧
          Pipeline.pushedHits (pipelineEvents es) = [hit] ∧ hit.breakpointId = 1 ∧
            s.toDeliver = (fun _ ↦ []) ∧ s.registry.lock = .free ∧
              (s.registry.breakpoints.lookup 1).map (fun entry ↦ entry.watch) = some 0 ∧
                s.registry.deletes 0 = .idle := by
  obtain ⟨es, s, l, sample, hrun, hnumbered, hl, hid, hwatch, hevents, hsample, hserver, hrest⟩ :=
    run_oneSample Unit 0
  let hit := (Hit.makeHitWithMaps .aarch64 0 0 sample.breakpointId sample.data [] none).1
  let hs : List Pipeline.Event := [.received sample, .numbered sample hit, .pushed hit]
  obtain ⟨pipeline, hworker⟩ :
      ∃ pipeline, Run (Pipeline.Step .aarch64 0) s.hitServer.pipeline hs pipeline := by
    rw [hserver]
    exact ⟨_, .cons (.receive rfl rfl) (.cons (.number rfl rfl) (.single (.skip rfl rfl)))⟩
  have hlift : Run (Step .aarch64 0) s ((hs.map .pipeline).map .hitServer) _ :=
    run_of_hitServer (HitServer.run_of_pipeline hworker) (by simp [hs, Behind])
  refine ⟨_, _, l, hit, hrun.append hlift, ?_, hl, hid, hwatch, ?_, hsample, hrest⟩
  · rw [registryEvents_append, (events_map_hitServer _).1, List.append_nil, hnumbered]
  · rw [pipelineEvents, hitServerEvents_append, (events_map_hitServer _).2, hevents]
    rfl

/-- The hit of a watch without a filter. -/
theorem hit_provenance_oneHit : ∃ (es : List (Event Unit)) (s : System Unit) (l : Launched)
    (hit : Hit), Run (Step .aarch64 0) initial es s ∧
      Pipeline.pushedHits (pipelineEvents es) = [hit] ∧ Provenance .aarch64 es s 0 l := by
  obtain ⟨es, s, l, hit, hrun, hnumbered, hl, -, -, hpushed, -⟩ := run_oneHit
  obtain ⟨hwatches, -⟩ := hit_provenance hrun (by rw [hnumbered]; decide)
  exact ⟨es, s, l, hit, hrun, hpushed, hwatches 0 l hl⟩

end System

end Pwatch.Server
